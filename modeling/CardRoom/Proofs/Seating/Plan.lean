import Mathlib
import CardRoom.Proofs.Seating.Course

/-! # Where a plan leads

When no player sits twice, a plan moves nobody twice, and in the end each table has its own
players who stayed, in their order, followed by those who came, in the order of the moves.
-/

namespace CardRoom

namespace Tables

variable {tables shifted : Tables} {m : TableMove}

theorem eq_of_mem_of_mem (distinct : tables.flatten.Nodup) {i j : Nat} {s t : List PlayerId}
    (first : tables[i]? = some s) (second : tables[j]? = some t) {p : PlayerId} (in_first : p ∈ s)
    (in_second : p ∈ t) : i = j := by
  obtain ⟨first_bound, rfl⟩ := List.getElem?_eq_some_iff.mp first
  obtain ⟨second_bound, rfl⟩ := List.getElem?_eq_some_iff.mp second
  have disjoint := List.pairwise_iff_getElem.mp (List.nodup_flatten.mp distinct).2
  rcases Nat.lt_trichotomy i j with lower | same | higher
  · exact absurd in_second (disjoint i j first_bound second_bound lower in_first)
  · exact same
  · exact absurd in_first (disjoint j i second_bound first_bound higher in_second)

theorem flatten_set_perm {i : Nat} {t rest : List PlayerId} {p : PlayerId}
    (here : tables[i]? = some t) (taken : t.Perm (p :: rest)) :
    tables.flatten.Perm (p :: (tables.set i rest).flatten) := by
  induction tables generalizing i with
  | nil => simp at here
  | cons u us ih =>
      cases i with
      | zero =>
          obtain rfl : u = t := by simpa using here
          simpa using taken.append_right us.flatten
      | succ i =>
          have later := (ih (by simpa using here)).append_left u
          simp only [List.flatten_cons, List.set_cons_succ]
          exact later.trans List.perm_middle

theorem flatten_modify_perm {i : Nat} (inside : i < tables.length) (p : PlayerId) :
    (tables.modify i (· ++ [p])).flatten.Perm (p :: tables.flatten) := by
  induction tables generalizing i with
  | nil => simp at inside
  | cons u us ih =>
      cases i with
      | zero => simp
      | succ i =>
          have later := (ih (by simpa using inside)).append_left u
          simp only [List.flatten_cons, List.modify_succ_cons]
          exact later.trans List.perm_middle

theorem Shift.flatten_perm (shift : Shift tables m shifted) :
    shifted.flatten.Perm tables.flatten := by
  obtain ⟨before, after, here, rfl⟩ := shift.moved
  have left := flatten_set_perm here List.perm_middle
  have inside : m.toTable < (tables.set m.fromTable (before ++ after)).length := by
    rw [List.length_set]
    exact shift.inside
  exact (flatten_modify_perm inside m.playerId).trans left.symm

/-- A shift takes its player away wherever he sits and puts him at the end of one table. -/
theorem Shift.getElem?_eq (shift : Shift tables m shifted) (distinct : tables.flatten.Nodup)
    (i : Nat) :
    shifted[i]? = tables[i]?.map fun t =>
      t.filter (· ≠ m.playerId) ++ if i = m.toTable then [m.playerId] else [] := by
  obtain ⟨before, after, giver, left⟩ := shift.giver
  have absent : ∀ j t, j ≠ m.fromTable → tables[j]? = some t →
      t.filter (· ≠ m.playerId) = t := by
    intro j t other here
    refine List.filter_eq_self.mpr fun p member => decide_eq_true ?_
    rintro rfl
    exact other (eq_of_mem_of_mem distinct here giver member (by simp))
  by_cases gives : i = m.fromTable
  · subst gives
    have once : (before ++ m.playerId :: after).Nodup :=
      (List.nodup_flatten.mp distinct).1 _ (List.mem_of_getElem? giver)
    rw [left, giver, Option.map_some, if_neg shift.apart, List.append_nil]
    rw [List.nodup_middle, List.nodup_cons] at once
    rw [List.filter_append, List.filter_cons_of_neg (by simp), ← List.filter_append,
      List.filter_eq_self.mpr]
    intro p member
    refine decide_eq_true ?_
    rintro rfl
    exact once.1 member
  · by_cases takes : i = m.toTable
    · subst takes
      obtain ⟨seated, taker, joined⟩ := shift.taker
      rw [joined, taker, Option.map_some, if_pos rfl, absent _ _ gives taker]
    · rw [shift.others gives takes]
      cases here : tables[i]? with
      | none => rfl
      | some t => rw [Option.map_some, if_neg takes, absent _ _ gives here, List.append_nil]

end Tables

namespace Arrangement

variable {rules : BalanceRules} {a : Arrangement}

/-- A plan either makes no move or makes one and goes on with the plan from where it led. -/
theorem plan_induction (rules : BalanceRules) {motive : Nat → Arrangement → Prop}
    (stop : ∀ limit a blocked, a.plan rules limit = ⟨[], a, blocked⟩ → motive limit a)
    (move : ∀ limit a m b, a.next rules = .move m b →
      a.plan rules (limit + 1) = ⟨m :: (b.plan rules limit).moves, (b.plan rules limit).final,
        (b.plan rules limit).blocked⟩ → motive limit b → motive (limit + 1) a)
    (limit : Nat) (a : Arrangement) : motive limit a := by
  induction limit generalizing a with
  | zero => exact stop 0 a false rfl
  | succ limit ih =>
      cases next_is : a.next rules with
      | balanced => exact stop _ a false (by simp only [plan, next_is])
      | blocked => exact stop _ a true (by simp only [plan, next_is])
      | move m b => exact move limit a m b next_is (by simp only [plan, next_is]) (ih b)

theorem plan_course (strict : 1 ≤ rules.allowedDiff) (limit : Nat) {gave took : Nat → Prop}
    (course : Tables.Course gave took a.tables) :
    (∀ m ∈ (a.plan rules limit).moves, ¬ took m.fromTable ∧ ¬ gave m.toTable) ∧
      ∀ m ∈ (a.plan rules limit).moves, ∀ n ∈ (a.plan rules limit).moves,
        m.fromTable ≠ n.toTable := by
  -- Each move adds its tables to `gave` and `took`, so the later moves keep away from them.
  induction limit, a using plan_induction rules generalizing gave took with
  | stop limit a blocked stops => simp [stops]
  | move limit a m b next_is goes_on ih =>
      have level := levelling_of_next strict next_is
      obtain ⟨outside, apart⟩ := ih (course.step level)
      rw [goes_on]
      constructor
      · intro n member
        rcases List.mem_cons.mp member with rfl | later
        · exact ⟨course.not_took level, course.not_gave level⟩
        · exact ⟨fun before => (outside n later).1 (.inl before),
            fun before => (outside n later).2 (.inl before)⟩
      · intro n first o second
        rcases List.mem_cons.mp first with rfl | later
        · rcases List.mem_cons.mp second with rfl | later
          · exact level.apart
          · exact fun same => (outside o later).2 (.inr same.symm)
        · rcases List.mem_cons.mp second with rfl | later'
          · exact fun same => (outside n later).1 (.inr same)
          · exact apart n later o later'

/-- No table both gives and takes. -/
theorem plan_apart (strict : 1 ≤ rules.allowedDiff) (limit : Nat) (a : Arrangement) :
    ∀ m ∈ (a.plan rules limit).moves, ∀ n ∈ (a.plan rules limit).moves,
      m.fromTable ≠ n.toTable := by
  have fresh : Tables.Course (fun _ => False) (fun _ => False) a.tables := ⟨by simp, by simp⟩
  exact (plan_course strict limit fresh).2

/-- Between the ends of a plan the sizes come closer, and no table loses its last player. -/
theorem steady_plan (strict : 1 ≤ rules.allowedDiff) (limit : Nat) (a : Arrangement) :
    Tables.Steady a.tables (a.plan rules limit).final.tables := by
  induction limit, a using plan_induction rules with
  | stop limit a blocked stops => exact stops ▸ Tables.Steady.refl _
  | move limit a m b next_is goes_on ih =>
      rw [goes_on]
      exact (levelling_of_next strict next_is).steady.trans ih

/-- The emptiest table never gets emptier, so no table is given up for another. -/
theorem smallest_le_plan (strict : 1 ≤ rules.allowedDiff) (limit : Nat) (a : Arrangement) :
    Tables.smallest a.tables ≤ Tables.smallest (a.plan rules limit).final.tables :=
  (steady_plan strict limit a).smallest_le

/-- Who came to a table, in the order of the moves. -/
def arrivals (moves : List TableMove) (i : Nat) : List TableMove := moves.filter (·.toTable = i)

/-- The moves one table after the other. -/
def grouped (n : Nat) (moves : List TableMove) : List TableMove :=
  (List.range n).flatMap (arrivals moves)

@[simp] theorem grouped_nil (n : Nat) : grouped n [] = [] := by
  simp [grouped, arrivals]

theorem mem_grouped {n : Nat} {moves : List TableMove} {m : TableMove} :
    m ∈ grouped n moves ↔ m ∈ moves ∧ m.toTable < n := by
  simp only [grouped, arrivals, List.mem_flatMap, List.mem_range, List.mem_filter,
    decide_eq_true_eq]
  grind

theorem grouped_succ (n : Nat) (moves : List TableMove) :
    grouped (n + 1) moves = grouped n moves ++ arrivals moves n := by
  simp [grouped, List.range_succ]

theorem filter_grouped {n i : Nat} {moves : List TableMove} (inside : i < n) :
    (grouped n moves).filter (·.toTable = i) = arrivals moves i := by
  induction n with
  | zero => omega
  | succ n ih =>
      rw [grouped_succ, List.filter_append]
      by_cases last : i = n
      · subst last
        have earlier : (grouped i moves).filter (·.toTable = i) = [] := by
          apply List.filter_eq_nil_iff.mpr
          intro m member
          have below := (mem_grouped.mp member).2
          simpa using below.ne
        rw [earlier, List.nil_append, arrivals, List.filter_filter]
        simp
      · have later : (arrivals moves n).filter (·.toTable = i) = [] := by
          apply List.filter_eq_nil_iff.mpr
          intro m member
          have leads : m.toTable = n := by simpa using (List.mem_filter.mp member).2
          simpa [leads] using Ne.symm last
        rw [ih (by omega), later, List.append_nil]

theorem grouped_perm_filter (n : Nat) (moves : List TableMove) :
    (grouped n moves).Perm (moves.filter (·.toTable < n)) := by
  induction n with
  | zero => simp [grouped]
  | succ n ih =>
      have parted := List.filter_append_perm (·.toTable < n) (moves.filter (·.toTable < n + 1))
      have below : (moves.filter (·.toTable < n + 1)).filter (·.toTable < n) =
          moves.filter (·.toTable < n) := by
        rw [List.filter_filter]
        exact List.filter_congr fun m _ => by grind
      have here : (moves.filter (·.toTable < n + 1)).filter (fun m => !decide (m.toTable < n)) =
          arrivals moves n := by
        rw [List.filter_filter]
        exact List.filter_congr fun m _ => by grind
      rw [grouped_succ]
      rw [below, here] at parted
      exact (ih.append_right _).trans parted

theorem grouped_perm {n : Nat} {moves : List TableMove} (inside : ∀ m ∈ moves, m.toTable < n) :
    (grouped n moves).Perm moves := by
  have all := grouped_perm_filter n moves
  rwa [List.filter_eq_self.mpr fun m member => decide_eq_true (inside m member)] at all

/-- What the moves of a plan say about the players at the tables before and after. -/
structure Carries (tables : Tables) (moves : List TableMove) (final : Tables) : Prop where
  same : final.flatten.Perm tables.flatten
  once : (moves.map TableMove.playerId).Nodup
  seated : ∀ m ∈ moves, ∃ t, tables[m.fromTable]? = some t ∧ m.playerId ∈ t
  inside : ∀ m ∈ moves, m.toTable < tables.length
  places : ∀ i, final[i]? = tables[i]?.map fun t =>
    t.filter (· ∉ moves.map TableMove.playerId) ++ (arrivals moves i).map TableMove.playerId

theorem Carries.nil (tables : Tables) : Carries tables [] tables where
  same := List.Perm.refl _
  once := List.nodup_nil
  seated := by simp
  inside := by simp
  places := by simp [arrivals]

section

variable {tables shifted final : Tables} {m : TableMove} {moves : List TableMove}

theorem Carries.length_eq (carries : Carries tables moves final) :
    final.length = tables.length := by
  have ends : ∀ i, final.length ≤ i ↔ tables.length ≤ i := by
    intro i
    rw [← List.getElem?_eq_none_iff, ← List.getElem?_eq_none_iff, carries.places,
      Option.map_eq_none_iff]
  have least := (ends tables.length).mpr le_rfl
  have most := (ends final.length).mp le_rfl
  omega

/-- With someone who stays beside those who are moved, there are more players than moves. -/
theorem Carries.length_lt (carries : Carries tables moves final) {p : PlayerId}
    (seated : p ∈ final.flatten) (stays : p ∉ moves.map TableMove.playerId) :
    moves.length < tables.flatten.length := by
  have apart : (p :: moves.map TableMove.playerId).Nodup :=
    List.nodup_cons.mpr ⟨stays, carries.once⟩
  have players : p :: moves.map TableMove.playerId ⊆ tables.flatten := by
    refine List.cons_subset.mpr ⟨carries.same.mem_iff.mp seated, fun q moved => ?_⟩
    obtain ⟨m, listed, rfl⟩ := List.mem_map.mp moved
    obtain ⟨giver, before, member⟩ := carries.seated m listed
    exact List.mem_flatten.mpr ⟨giver, List.mem_of_getElem? before, member⟩
  have bound := (List.subperm_of_subset apart players).length_le
  rw [List.length_cons, List.length_map] at bound
  exact bound

theorem Carries.not_again (distinct : tables.flatten.Nodup)
    (shift : Tables.Shift tables m shifted) (apart : ∀ n ∈ moves, n.fromTable ≠ m.toTable)
    (carries : Carries shifted moves final) : m.playerId ∉ moves.map TableMove.playerId := by
  intro again
  obtain ⟨n, later, same⟩ := List.mem_map.mp again
  obtain ⟨t, here, member⟩ := carries.seated n later
  obtain ⟨seated, -, joined⟩ := shift.taker
  have still : shifted.flatten.Nodup := shift.flatten_perm.nodup_iff.mpr distinct
  exact apart n later (Tables.eq_of_mem_of_mem still here joined member (by simp [same]))

theorem Carries.cons (distinct : tables.flatten.Nodup)
    (shift : Tables.Shift tables m shifted) (apart : ∀ n ∈ moves, n.fromTable ≠ m.toTable)
    (carries : Carries shifted moves final) : Carries tables (m :: moves) final where
  same := carries.same.trans shift.flatten_perm
  once := List.nodup_cons.mpr ⟨carries.not_again distinct shift apart, carries.once⟩
  seated := by
    intro n member
    rcases List.mem_cons.mp member with rfl | later
    · obtain ⟨before, after, giver, -⟩ := shift.giver
      exact ⟨_, giver, by simp⟩
    · obtain ⟨t, here, member⟩ := carries.seated n later
      rw [shift.getElem?_eq distinct] at here
      obtain ⟨u, before, rfl⟩ := Option.map_eq_some_iff.mp here
      rw [if_neg (apart n later), List.append_nil] at member
      exact ⟨u, before, List.mem_of_mem_filter member⟩
  inside := by
    intro n member
    rcases List.mem_cons.mp member with rfl | later
    · exact shift.inside
    · exact shift.length_eq ▸ carries.inside n later
  places := by
    intro i
    -- The player who came by the shift is not moved again, so he stands before later arrivals.
    have stays : [m.playerId].filter (· ∉ moves.map TableMove.playerId) = [m.playerId] :=
      List.filter_eq_self.mpr fun p member => List.mem_singleton.mp member ▸
        decide_eq_true (carries.not_again distinct shift apart)
    rw [carries.places, shift.getElem?_eq distinct, Option.map_map]
    congr 1
    funext t
    have kept : (t.filter (· ≠ m.playerId)).filter (· ∉ moves.map TableMove.playerId) =
        t.filter (· ∉ (m :: moves).map TableMove.playerId) := by
      rw [List.filter_filter]
      apply List.filter_congr
      intro p _
      rw [← Bool.decide_and, decide_eq_decide, List.map_cons, List.mem_cons, not_or, and_comm]
    rw [Function.comp_apply, List.filter_append, kept, List.append_assoc]
    congr 1
    by_cases takes : i = m.toTable
    · subst takes
      rw [if_pos rfl, stays]
      simp [arrivals]
    · rw [if_neg takes]
      simp [arrivals, Ne.symm takes]

end

/-- A plan carries its tables to the final ones. -/
theorem plan_carries (strict : 1 ≤ rules.allowedDiff) (limit : Nat)
    (distinct : a.tables.flatten.Nodup) :
    Carries a.tables (a.plan rules limit).moves (a.plan rules limit).final.tables := by
  induction limit, a using plan_induction rules with
  | stop limit a blocked stops => exact stops ▸ Carries.nil a.tables
  | move limit a m b next_is goes_on ih =>
      have shift := (levelling_of_next strict next_is).toShift
      have apart := plan_apart strict (limit + 1) a
      rw [goes_on] at apart ⊢
      refine Carries.cons distinct shift ?_ (ih (shift.flatten_perm.nodup_iff.mpr distinct))
      intro n later
      exact apart n (List.mem_cons_of_mem m later) m List.mem_cons_self

/-- A plan moves those who may be moved before it has begun, as it moves nobody again. -/
theorem mayMove_of_mem_plan (strict : 1 ≤ rules.allowedDiff) (limit : Nat)
    (distinct : a.tables.flatten.Nodup) :
    ∀ m ∈ (a.plan rules limit).moves, a.mayMove rules m.playerId = true := by
  induction limit, a using plan_induction rules with
  | stop limit a blocked stops => simp [stops]
  | move limit a m b next_is goes_on ih =>
      have shift := (levelling_of_next strict next_is).toShift
      have once := (plan_carries strict (limit + 1) distinct).once
      obtain ⟨-, -, -, before, after, -, rested, -, rfl⟩ := next_eq_move next_is
      rw [goes_on, List.map_cons, List.nodup_cons] at once
      rw [goes_on]
      intro n member
      rcases List.mem_cons.mp member with rfl | later
      · exact rested
      · have other : m.playerId ≠ n.playerId := by
          intro same
          exact once.1 (List.mem_map.mpr ⟨n, later, same.symm⟩)
        have still := ih (shift.flatten_perm.nodup_iff.mpr distinct) n later
        rw [mayMove, Std.TreeMap.getElem?_insert, if_neg (by simpa using other)] at still
        exact still

end Arrangement

end CardRoom
