import Mathlib
import CardRoom.Seating.Balance

/-! # The course of a balancing

A move takes a player from a fullest to an emptiest table, whose sizes differ by two or more. So
the largest size never grows and the smallest never shrinks, a table that has given a player
stays within one of the largest and a table that has taken one stays within one of the smallest.
Therefore no table both gives and takes, and nobody is moved twice.
-/

namespace CardRoom

namespace Tables

variable {tables : Tables} {seated : List PlayerId} {n : Nat}

theorem largest_mem (nonempty : tables ≠ []) : largest tables ∈ sizes tables := by
  cases top : (sizes tables).max? with
  | none => simp [sizes, nonempty] at top
  | some n =>
      rw [largest, top]
      exact (List.max?_eq_some_iff.mp top).1

theorem le_largest (member : seated ∈ tables) : seated.length ≤ largest tables := by
  have listed : seated.length ∈ sizes tables := List.mem_map_of_mem member
  cases top : (sizes tables).max? with
  | none => simp [List.max?_eq_none_iff.mp top] at listed
  | some n =>
      rw [largest, top]
      exact (List.max?_eq_some_iff.mp top).2 _ listed

theorem smallest_mem (nonempty : tables ≠ []) : smallest tables ∈ sizes tables := by
  cases bottom : (sizes tables).min? with
  | none => simp [sizes, nonempty] at bottom
  | some n =>
      rw [smallest, bottom]
      exact (List.min?_eq_some_iff.mp bottom).1

theorem smallest_le (member : seated ∈ tables) : smallest tables ≤ seated.length := by
  have listed : seated.length ∈ sizes tables := List.mem_map_of_mem member
  cases bottom : (sizes tables).min? with
  | none => simp [List.min?_eq_none_iff.mp bottom] at listed
  | some n =>
      rw [smallest, bottom]
      exact (List.min?_eq_some_iff.mp bottom).2 _ listed

theorem largest_le (bound : ∀ t ∈ tables, t.length ≤ n) : largest tables ≤ n := by
  by_cases empty : tables = []
  · subst empty
    exact Nat.zero_le n
  · obtain ⟨t, member, same⟩ := List.mem_map.mp (largest_mem empty)
    rw [← same]
    exact bound t member

theorem le_smallest (nonempty : tables ≠ []) (bound : ∀ t ∈ tables, n ≤ t.length) :
    n ≤ smallest tables := by
  obtain ⟨t, member, same⟩ := List.mem_map.mp (smallest_mem nonempty)
  rw [← same]
  exact bound t member

theorem getElem?_of_idxOf_sizes {k : Nat} (listed : k ∈ sizes tables) :
    ∃ t, tables[(sizes tables).idxOf k]? = some t ∧ t.length = k := by
  have found : (sizes tables)[(sizes tables).idxOf k]? = some k := by
    have bound := List.idxOf_lt_length_of_mem listed
    rw [List.getElem?_eq_getElem bound, List.getElem_idxOf bound]
  exact Option.map_eq_some_iff.mp (List.getElem?_map.symm.trans found)

section

variable {diff : Nat} (unbalanced : ¬ Balanced diff tables)
include unbalanced

theorem ne_nil_of_unbalanced : tables ≠ [] := by
  rintro rfl
  exact unbalanced (Nat.zero_le _)

theorem smallest_lt_of_unbalanced : smallest tables < largest tables := by
  unfold Balanced at unbalanced
  omega

theorem steep_of_unbalanced (strict : 1 ≤ diff) : smallest tables + 2 ≤ largest tables := by
  unfold Balanced at unbalanced
  omega

end

/-- A player goes from one table to the end of another. -/
structure Shift (tables : Tables) (m : TableMove) (shifted : Tables) : Prop where
  moved : ∃ before after, tables[m.fromTable]? = some (before ++ m.playerId :: after) ∧
    shifted = (tables.set m.fromTable (before ++ after)).modify m.toTable (· ++ [m.playerId])
  inside : m.toTable < tables.length
  apart : m.fromTable ≠ m.toTable

namespace Shift

variable {shifted : Tables} {m : TableMove}

theorem giver (shift : Shift tables m shifted) :
    ∃ before after, tables[m.fromTable]? = some (before ++ m.playerId :: after) ∧
      shifted[m.fromTable]? = some (before ++ after) := by
  obtain ⟨before, after, here, rfl⟩ := shift.moved
  refine ⟨before, after, here, ?_⟩
  rw [List.getElem?_modify_ne _ _ shift.apart.symm,
    List.getElem?_set_self (List.getElem?_eq_some_iff.mp here).1]

theorem taker (shift : Shift tables m shifted) :
    ∃ seated, tables[m.toTable]? = some seated ∧
      shifted[m.toTable]? = some (seated ++ [m.playerId]) := by
  obtain ⟨before, after, -, rfl⟩ := shift.moved
  have there := List.getElem?_eq_getElem shift.inside
  refine ⟨_, there, ?_⟩
  rw [List.getElem?_modify_eq, List.getElem?_set_ne shift.apart, there]
  rfl

theorem exists_set (shift : Shift tables m shifted) :
    ∃ before after taker, tables[m.fromTable]? = some (before ++ m.playerId :: after) ∧
      tables[m.toTable]? = some taker ∧
      shifted = (tables.set m.fromTable (before ++ after)).set m.toTable (taker ++ [m.playerId]) := by
  obtain ⟨before, after, here, same⟩ := shift.moved
  obtain ⟨taker, there, -⟩ := shift.taker
  refine ⟨before, after, taker, here, there, ?_⟩
  rw [same, List.modify_eq_set, List.getElem?_set_ne shift.apart, there, Option.getD_some]

theorem others (shift : Shift tables m shifted) {i : Nat} (gives : i ≠ m.fromTable)
    (takes : i ≠ m.toTable) : shifted[i]? = tables[i]? := by
  obtain ⟨before, after, -, rfl⟩ := shift.moved
  rw [List.getElem?_modify_ne _ _ takes.symm, List.getElem?_set_ne gives.symm]

theorem length_eq (shift : Shift tables m shifted) : shifted.length = tables.length := by
  obtain ⟨before, after, -, rfl⟩ := shift.moved
  rw [List.length_modify, List.length_set]

end Shift

/-- A shift from a table of the largest size to one of the smallest, two or more below. -/
structure Levelling (tables : Tables) (m : TableMove) (shifted : Tables) : Prop
    extends Shift tables m shifted where
  full : ∀ t, tables[m.fromTable]? = some t → t.length = largest tables
  empty : ∀ t, tables[m.toTable]? = some t → t.length = smallest tables
  steep : smallest tables + 2 ≤ largest tables

end Tables

namespace Arrangement

variable {rules : BalanceRules} {a b : Arrangement} {m : TableMove}

/-- Everything that a move says about the arrangements before and after it. -/
theorem next_eq_move (moved : a.next rules = .move m b) :
    ¬ Tables.Balanced rules.allowedDiff a.tables ∧
      m.fromTable = Tables.fullest a.tables ∧ m.toTable = Tables.emptiest a.tables ∧
      ∃ before after, a.tables.getD m.fromTable [] = before ++ m.playerId :: after ∧
        a.mayMove rules m.playerId = true ∧ (∀ p ∈ after, a.mayMove rules p = false) ∧
        b = { tables := (a.tables.set m.fromTable (before ++ after)).modify m.toTable
                (· ++ [m.playerId])
              history := a.history.insert m.playerId rules.hand } := by
  unfold next at moved
  split at moved
  · cases moved
  · rename_i unbalanced
    cases taken : takeLast? (a.mayMove rules) (a.tables.getD (Tables.fullest a.tables) []) with
    | none => simp only [taken, reduceCtorEq] at moved
    | some found =>
        obtain ⟨player, rest⟩ := found
        simp only [taken, NextMove.move.injEq] at moved
        obtain ⟨rfl, rfl⟩ := moved
        obtain ⟨before, after, split, rfl, rested, restless⟩ := takeLast?_eq_some_iff.mp taken
        exact ⟨unbalanced, rfl, rfl, before, after, split, rested, restless, rfl⟩

/-- A move leads from a table of the largest size to one of the smallest. -/
theorem shift_of_next (moved : a.next rules = .move m b) :
    Tables.Shift a.tables m b.tables ∧
      (∀ t, a.tables[m.fromTable]? = some t → t.length = Tables.largest a.tables) ∧
      ∀ t, a.tables[m.toTable]? = some t → t.length = Tables.smallest a.tables := by
  obtain ⟨unbalanced, giver, taker, before, after, seats, -, -, rfl⟩ := next_eq_move moved
  have nonempty := Tables.ne_nil_of_unbalanced unbalanced
  have uneven := Tables.smallest_lt_of_unbalanced unbalanced
  obtain ⟨full, full_at, full_size⟩ :=
    Tables.getElem?_of_idxOf_sizes (Tables.largest_mem nonempty)
  obtain ⟨low, low_at, low_size⟩ :=
    Tables.getElem?_of_idxOf_sizes (Tables.smallest_mem nonempty)
  rw [← Tables.fullest, ← giver] at full_at
  rw [← Tables.emptiest, ← taker] at low_at
  rw [List.getD_eq_getElem?_getD, full_at, Option.getD_some] at seats
  have apart : m.fromTable ≠ m.toTable := by
    intro same
    rw [same, low_at] at full_at
    cases full_at
    omega
  have inside := (List.getElem?_eq_some_iff.mp low_at).1
  refine ⟨⟨⟨before, after, seats ▸ full_at, rfl⟩, inside, apart⟩, ?_, ?_⟩
  · intro t here
    rw [full_at] at here
    cases here
    exact full_size
  · intro t here
    rw [low_at] at here
    cases here
    exact low_size

theorem levelling_of_next (strict : 1 ≤ rules.allowedDiff) (moved : a.next rules = .move m b) :
    Tables.Levelling a.tables m b.tables := by
  obtain ⟨shift, full, low⟩ := shift_of_next moved
  exact ⟨shift, full, low, Tables.steep_of_unbalanced (next_eq_move moved).1 strict⟩

end Arrangement

namespace Tables

/-! ## Tables that have given or taken -/

/-- Tables that gave a player are still nearly the fullest, tables that took one nearly the
emptiest. -/
structure Course (gave took : Nat → Prop) (tables : Tables) : Prop where
  given : ∀ i t, gave i → tables[i]? = some t → largest tables ≤ t.length + 1
  taken : ∀ i t, took i → tables[i]? = some t → t.length ≤ smallest tables + 1

variable {tables shifted : Tables} {m : TableMove}

theorem Levelling.length_cases (level : Levelling tables m shifted) {i : Nat} {t : List PlayerId}
    (here : shifted[i]? = some t) :
    (i = m.fromTable ∧ t.length + 1 = largest tables) ∨
      (i = m.toTable ∧ t.length = smallest tables + 1) ∨
      (i ≠ m.fromTable ∧ i ≠ m.toTable ∧ tables[i]? = some t) := by
  obtain ⟨before, after, giver, left⟩ := level.giver
  obtain ⟨seated, taker, joined⟩ := level.taker
  by_cases gives : i = m.fromTable
  · subst gives
    rw [left] at here
    cases here
    have size := level.full _ giver
    refine .inl ⟨rfl, ?_⟩
    simp only [List.length_append, List.length_cons] at size ⊢
    omega
  · by_cases takes : i = m.toTable
    · subst takes
      rw [joined] at here
      cases here
      have size := level.empty _ taker
      refine .inr (.inl ⟨rfl, ?_⟩)
      rw [List.length_append, size]
      rfl
    · rw [level.others gives takes] at here
      exact .inr (.inr ⟨gives, takes, here⟩)

theorem Levelling.largest_le (level : Levelling tables m shifted) :
    largest shifted ≤ largest tables := by
  apply Tables.largest_le
  intro t member
  obtain ⟨i, here⟩ := List.mem_iff_getElem?.mp member
  have steep := level.steep
  obtain ⟨-, size⟩ | ⟨-, size⟩ | ⟨-, -, same⟩ := level.length_cases here
  · omega
  · omega
  · exact le_largest (List.mem_of_getElem? same)

theorem Levelling.smallest_le (level : Levelling tables m shifted) :
    smallest tables ≤ smallest shifted := by
  have nonempty : shifted ≠ [] := by
    obtain ⟨seated, -, joined⟩ := level.taker
    rintro rfl
    cases joined
  apply le_smallest nonempty
  intro t member
  obtain ⟨i, here⟩ := List.mem_iff_getElem?.mp member
  have steep := level.steep
  obtain ⟨-, size⟩ | ⟨-, size⟩ | ⟨-, -, same⟩ := level.length_cases here
  · omega
  · omega
  · exact Tables.smallest_le (List.mem_of_getElem? same)

/-- What does not get worse from one stage of a balancing to a later one. -/
structure Steady (before after : Tables) : Prop where
  largest_le : largest after ≤ largest before
  smallest_le : smallest before ≤ smallest after
  occupied : ∀ i, before.getD i [] ≠ [] → after.getD i [] ≠ []

theorem Steady.trans {before between after : Tables} (first : Steady before between) (second : Steady between after) :
    Steady before after where
  largest_le := second.largest_le.trans first.largest_le
  smallest_le := first.smallest_le.trans second.smallest_le
  occupied i seated := second.occupied i (first.occupied i seated)

theorem Steady.refl (tables : Tables) : Steady tables tables :=
  ⟨Nat.le_refl _, Nat.le_refl _, fun _ seated => seated⟩

instance steady_isTrans : IsTrans Tables Steady := ⟨fun _ _ _ => Steady.trans⟩

theorem Levelling.steady (level : Levelling tables m shifted) : Steady tables shifted where
  largest_le := level.largest_le
  smallest_le := level.smallest_le
  occupied := by
    intro i seated
    have inside : i < shifted.length := by
      rw [level.length_eq]
      by_contra beyond
      exact seated (List.getD_eq_default _ _ (Nat.not_lt.mp beyond))
    have here := List.getElem?_eq_getElem inside
    have steep := level.steep
    rw [List.getD_eq_getElem?_getD, here, Option.getD_some, ← List.length_pos_iff]
    obtain ⟨-, size⟩ | ⟨-, size⟩ | ⟨-, -, same⟩ := level.length_cases here
    · omega
    · omega
    · rwa [List.getD_eq_getElem?_getD, same, Option.getD_some, ← List.length_pos_iff] at seated

theorem Course.not_took {gave took : Nat → Prop} (course : Course gave took tables)
    (level : Levelling tables m shifted) : ¬ took m.fromTable := by
  intro took_before
  obtain ⟨before, after, giver, -⟩ := level.giver
  have low := course.taken _ _ took_before giver
  have size := level.full _ giver
  have steep := level.steep
  omega

theorem Course.not_gave {gave took : Nat → Prop} (course : Course gave took tables)
    (level : Levelling tables m shifted) : ¬ gave m.toTable := by
  intro gave_before
  obtain ⟨seated, taker, -⟩ := level.taker
  have high := course.given _ _ gave_before taker
  have size := level.empty _ taker
  have steep := level.steep
  omega

theorem Course.step {gave took : Nat → Prop} (course : Course gave took tables)
    (level : Levelling tables m shifted) :
    Course (fun i => gave i ∨ i = m.fromTable) (fun i => took i ∨ i = m.toTable) shifted where
  given := by
    intro i t gives here
    have lower := level.largest_le
    obtain ⟨-, size⟩ | ⟨rfl, -⟩ | ⟨other, -, same⟩ := level.length_cases here
    · omega
    · rcases gives with before | now
      · exact absurd before (course.not_gave level)
      · exact absurd now.symm level.apart
    · have high := course.given i t (gives.resolve_right other) same
      omega
  taken := by
    intro i t takes here
    have higher := level.smallest_le
    obtain ⟨rfl, -⟩ | ⟨-, size⟩ | ⟨-, other, same⟩ := level.length_cases here
    · rcases takes with before | now
      · exact absurd before (course.not_took level)
      · exact absurd now level.apart
    · omega
    · have low := course.taken i t (takes.resolve_right other) same
      omega

end Tables

end CardRoom
