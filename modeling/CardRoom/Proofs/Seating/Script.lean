import Mathlib
import CardRoom.Proofs.Seating.Stages

/-! # A plan as a script

The moves of a plan can be carried out one by one on the tables before it. Each of them takes the
last player who may be moved from the first of the fullest tables to the first of the emptiest, as
the tables and the history stand when it is his turn. This holds for any allowed difference, also
where a table both gives and takes and a player is moved more than once.
-/

namespace CardRoom

namespace Tables

/-! ## The tables that a move joins -/

/-- A table that no other is ahead of in size, and the first such. -/
structure FirstBy (ahead : Nat → Nat → Prop) (tables : Tables) (i : Nat)
    (seated : List PlayerId) : Prop where
  here : tables[i]? = some seated
  unsurpassed : ∀ other ∈ tables, ¬ ahead other.length seated.length
  first : ∀ j < i, ∀ other, tables[j]? = some other → ahead seated.length other.length

/-- The first fullest table has more players than the first emptiest, by more than is allowed. -/
structure Uneven (allowedDiff : Nat) (tables : Tables) (i j : Nat)
    (giver taker : List PlayerId) : Prop where
  fullest : FirstBy (· > ·) tables i giver
  emptiest : FirstBy (· < ·) tables j taker
  gap : taker.length + allowedDiff < giver.length

variable {tables shifted final : Tables} {m : TableMove} {moves : List TableMove}
  {seated giver taker : List PlayerId} {i j diff : Nat}

theorem FirstBy.index_unique {ahead : Nat → Nat → Prop} {other : List PlayerId}
    (one : FirstBy ahead tables i seated) (two : FirstBy ahead tables j other) : i = j := by
  rcases Nat.lt_trichotomy i j with earlier | same | later
  · exact absurd (two.first i earlier seated one.here)
      (one.unsurpassed other (List.mem_of_getElem? two.here))
  · exact same
  · exact absurd (one.first j later other two.here)
      (two.unsurpassed seated (List.mem_of_getElem? one.here))

/-- The first table of a size that none is ahead of. -/
theorem exists_firstBy {ahead : Nat → Nat → Prop} {n : Nat} (listed : n ∈ sizes tables)
    (bound : ∀ other ∈ tables, ¬ ahead other.length n)
    (apart : ∀ other ∈ tables, other.length ≠ n → ahead n other.length) :
    ∃ seated, FirstBy ahead tables ((sizes tables).idxOf n) seated ∧ seated.length = n := by
  obtain ⟨seated, here, rfl⟩ := getElem?_of_idxOf_sizes listed
  refine ⟨seated, ⟨here, bound, fun j earlier other there => ?_⟩, rfl⟩
  obtain ⟨inside, same⟩ := List.getElem?_eq_some_iff.mp there
  have differs := List.not_of_lt_findIdx earlier
  apply apart other (List.mem_of_getElem? there)
  simpa [sizes, same] using differs

theorem firstBy_fullest (nonempty : tables ≠ []) :
    ∃ seated, FirstBy (· > ·) tables (fullest tables) seated ∧ seated.length = largest tables :=
  exists_firstBy (largest_mem nonempty)
    (fun _ member => Nat.not_lt.mpr (le_largest member))
    (fun _ member other => lt_of_le_of_ne (le_largest member) other)

theorem firstBy_emptiest (nonempty : tables ≠ []) :
    ∃ seated, FirstBy (· < ·) tables (emptiest tables) seated ∧
      seated.length = smallest tables :=
  exists_firstBy (smallest_mem nonempty)
    (fun _ member => Nat.not_lt.mpr (smallest_le member))
    (fun _ member other => lt_of_le_of_ne (smallest_le member) other.symm)

theorem uneven_of_unbalanced (unbalanced : ¬ Balanced diff tables) :
    ∃ giver taker, Uneven diff tables (fullest tables) (emptiest tables) giver taker := by
  have nonempty := ne_nil_of_unbalanced unbalanced
  obtain ⟨giver, full, most⟩ := firstBy_fullest nonempty
  obtain ⟨taker, low, least⟩ := firstBy_emptiest nonempty
  refine ⟨giver, taker, full, low, ?_⟩
  unfold Balanced at unbalanced
  omega

theorem Uneven.unbalanced (uneven : Uneven diff tables i j giver taker) :
    ¬ Balanced diff tables := by
  have most := le_largest (List.mem_of_getElem? uneven.fullest.here)
  have least := smallest_le (List.mem_of_getElem? uneven.emptiest.here)
  have gap := uneven.gap
  unfold Balanced
  omega

theorem Uneven.atFullest (uneven : Uneven diff tables i j giver taker) :
    atFullest tables = giver := by
  obtain ⟨seated, full, -⟩ := firstBy_fullest (ne_nil_of_unbalanced uneven.unbalanced)
  rw [Tables.atFullest, full.index_unique uneven.fullest, List.getD_eq_getElem?_getD,
    uneven.fullest.here, Option.getD_some]

/-! ## Carrying out moves -/

/-- The tables after a move, if its player sits at the table that he is to leave and there is a
table for him to go to. -/
def carryOut? (tables : Tables) (m : TableMove) : Option Tables :=
  if m.playerId ∈ tables.getD m.fromTable [] ∧ m.toTable < tables.length then
    some (tables.carryOut m)
  else none

/-- The tables after some moves, if each of them can be carried out in its turn. -/
def replay? : Tables → List TableMove → Option Tables
  | tables, [] => some tables
  | tables, m :: moves => (tables.carryOut? m).bind (replay? · moves)

theorem Shift.carryOut?_eq (distinct : tables.flatten.Nodup) (shift : Shift tables m shifted) :
    tables.carryOut? m = some shifted := by
  obtain ⟨before, after, here, -⟩ := shift.giver
  have seated : m.playerId ∈ tables.getD m.fromTable [] := by
    rw [List.getD_eq_getElem?_getD, here, Option.getD_some]
    exact List.mem_append_right _ List.mem_cons_self
  rw [carryOut?, if_pos ⟨seated, shift.inside⟩, shift.carryOut_eq distinct]

/-- What makes a move legal: it joins the first fullest table and the first emptiest one, and its
player is the last at his table who may be moved. -/
def Legal (allowedDiff : Nat) (tables : Tables) (mayMove : PlayerId → Bool) (m : TableMove) :
    Prop :=
  ∃ before after taker,
    Uneven allowedDiff tables m.fromTable m.toTable (before ++ m.playerId :: after) taker ∧
      mayMove m.playerId = true ∧ ∀ p ∈ after, mayMove p = false

end Tables

/-- The hand of a player's last move, once some moves have been made at a hand. -/
def MoveHistory.lastMove (history : MoveHistory) (hand : HandNumber) (moves : List TableMove)
    (p : PlayerId) : Option HandNumber :=
  if p ∈ moves.map TableMove.playerId then some hand else history[p]?

namespace Arrangement

open Tables

variable {rules : BalanceRules} {a b : Arrangement} {m : TableMove} {limit : Nat}

theorem legal_of_next (moved : a.next rules = .move m b) :
    Legal rules.allowedDiff a.tables (a.mayMove rules) m := by
  obtain ⟨unbalanced, gives, takes, before, after, seats, rested, restless, -⟩ :=
    next_eq_move moved
  obtain ⟨giver, taker, uneven⟩ := uneven_of_unbalanced unbalanced
  rw [← gives, ← takes] at uneven
  rw [List.getD_eq_getElem?_getD, uneven.fullest.here, Option.getD_some] at seats
  exact ⟨before, after, taker, seats ▸ uneven, rested, restless⟩

/-- Whatever a plan does, the same players sit at as many tables. -/
theorem plan_rearranges (rules : BalanceRules) (limit : Nat) (a : Arrangement) :
    (a.plan rules limit).final.tables.length = a.tables.length ∧
      (a.plan rules limit).final.tables.flatten.Perm a.tables.flatten := by
  induction limit, a using plan_induction rules with
  | stop limit a blocked stops => simp [stops]
  | move limit a m b next_is goes_on ih =>
      have shift := (shift_of_next next_is).1
      rw [goes_on]
      exact ⟨ih.1.trans shift.length_eq, ih.2.trans shift.flatten_perm⟩

theorem replay?_plan (rules : BalanceRules) (limit : Nat) (distinct : a.tables.flatten.Nodup) :
    replay? a.tables (a.plan rules limit).moves = some (a.plan rules limit).final.tables := by
  induction limit, a using plan_induction rules with
  | stop limit a blocked stops =>
      rw [stops]
      rfl
  | move limit a m b next_is goes_on ih =>
      have shift := (shift_of_next next_is).1
      rw [goes_on, replay?, shift.carryOut?_eq distinct, Option.bind_some]
      exact ih (shift.flatten_perm.nodup_iff.mpr distinct)

theorem exists_next_of_moves {rest : List TableMove}
    (moves : (a.plan rules limit).moves = m :: rest) : ∃ b, a.next rules = .move m b := by
  cases limit with
  | zero => cases moves
  | succ limit =>
      unfold plan at moves
      cases next_is : a.next rules with
      | balanced | blocked => simp only [next_is, reduceCtorEq] at moves
      | move n b =>
          simp only [next_is, List.cons.injEq] at moves
          exact ⟨b, moves.1 ▸ rfl⟩

/-- A plan that is cut short before one of its moves leads to where that move is made. -/
theorem plan_before {before after : List TableMove}
    (split : (a.plan rules limit).moves = before ++ m :: after) :
    (a.plan rules before.length).moves = before ∧
      ∃ b, (a.plan rules before.length).final.next rules = .move m b := by
  have fewer : before.length < (a.plan rules limit).moves.length := by
    rw [split, List.length_append, List.length_cons]
    omega
  obtain ⟨all, -⟩ := plan_of_fewer fewer
  obtain ⟨more, rfl⟩ := Nat.exists_eq_add_of_le (fewer.le.trans (length_moves_le rules limit a))
  rw [plan_add] at split
  obtain ⟨same, rest⟩ := List.append_inj split all
  exact ⟨same, exists_next_of_moves rest⟩

theorem length_moves_lt_of_blocked (blocked : (a.plan rules limit).blocked = true) :
    (a.plan rules limit).moves.length < limit := by
  induction limit, a using plan_induction rules with
  | stop limit a _ stops =>
      cases limit with
      | zero => cases blocked
      | succ limit => simp [stops]
  | move limit a m b next_is goes_on ih =>
      rw [goes_on] at blocked ⊢
      simpa using ih blocked

theorem blocked_iff : (a.plan rules limit).blocked = true ↔
    (a.plan rules limit).moves.length < limit ∧
      (a.plan rules limit).final.next rules = .blocked := by
  constructor
  · intro blocked
    rcases plan_stops rules limit a with ⟨-, stuck⟩ | ⟨unblocked, -⟩
    · exact ⟨length_moves_lt_of_blocked blocked, stuck⟩
    · simp [blocked] at unblocked
  · rintro ⟨fewer, stuck⟩
    rcases plan_stops rules limit a with ⟨blocked, -⟩ | ⟨-, settled | full⟩
    · exact blocked
    · simp [stuck] at settled
    · omega

/-- Nobody at the first fullest table may be moved, and it has too many players. -/
theorem next_eq_blocked_iff_uneven : a.next rules = .blocked ↔
    ∃ i j giver taker, Uneven rules.allowedDiff a.tables i j giver taker ∧
      ∀ p ∈ giver, a.mayMove rules p = false := by
  rw [next_eq_blocked_iff]
  constructor
  · rintro ⟨unbalanced, restless⟩
    obtain ⟨giver, taker, uneven⟩ := uneven_of_unbalanced unbalanced
    exact ⟨_, _, giver, taker, uneven, uneven.atFullest ▸ restless⟩
  · rintro ⟨i, j, giver, taker, uneven, restless⟩
    exact ⟨uneven.unbalanced, uneven.atFullest ▸ restless⟩

/-- The moves of a plan for distinct players can be carried out one by one, each is legal when it
is made, and they lead to the final tables, where the same players sit at as many tables. The history
has the hand of the plan for those who were moved and is what it was for all others. There are no more
moves than allowed, and the plan is blocked just when it stopped before that limit because nobody at
the first fullest table might be moved. -/
theorem plan_is_legal_script (rules : BalanceRules) (limit : Nat)
    (distinct : a.tables.flatten.Nodup) :
    (∀ before m after, (a.plan rules limit).moves = before ++ m :: after →
      ∃ tables, replay? a.tables before = some tables ∧
        Legal rules.allowedDiff tables (fun p =>
          isRested (a.history.lastMove rules.hand before p) rules.hand rules.restHands) m) ∧
    replay? a.tables (a.plan rules limit).moves = some (a.plan rules limit).final.tables ∧
    (a.plan rules limit).final.tables.length = a.tables.length ∧
    (a.plan rules limit).final.tables.flatten.Perm a.tables.flatten ∧
    (∀ p, (a.plan rules limit).final.history[p]? =
      a.history.lastMove rules.hand (a.plan rules limit).moves p) ∧
    (a.plan rules limit).moves.length ≤ limit ∧
    ((a.plan rules limit).blocked = true ↔
      (a.plan rules limit).moves.length < limit ∧
        ∃ i j giver taker,
          Uneven rules.allowedDiff (a.plan rules limit).final.tables i j giver taker ∧
          ∀ p ∈ giver, isRested (a.history.lastMove rules.hand (a.plan rules limit).moves p)
            rules.hand rules.restHands = false) ∧
    ((a.plan rules limit).blocked = false →
      (a.plan rules limit).moves.length = limit ∨
        ∀ i j giver taker,
          ¬ Uneven rules.allowedDiff (a.plan rules limit).final.tables i j giver taker) := by
  have history := fun n => getElem?_history_plan rules n a
  have rested : ∀ n, (a.plan rules n).final.mayMove rules = fun p =>
      isRested (a.history.lastMove rules.hand (a.plan rules n).moves p) rules.hand
        rules.restHands := by
    intro n
    funext p
    rw [mayMove, history]
    rfl
  refine ⟨?_, replay?_plan rules limit distinct, (plan_rearranges rules limit a).1,
    (plan_rearranges rules limit a).2, history limit, length_moves_le rules limit a, ?_, ?_⟩
  · intro before m after split
    obtain ⟨same, b, next_is⟩ := plan_before split
    have carried := replay?_plan rules before.length distinct
    have legal := legal_of_next next_is
    rw [rested, same] at legal
    rw [same] at carried
    exact ⟨_, carried, legal⟩
  · rw [blocked_iff, next_eq_blocked_iff_uneven, rested]
  · intro unblocked
    rcases plan_stops rules limit a with ⟨blocked, -⟩ | ⟨-, settled | full⟩
    · simp [unblocked] at blocked
    · exact .inr fun i j giver taker uneven =>
        uneven.unbalanced (next_eq_balanced_iff.mp settled)
    · exact .inl full

/-- With no difference allowed, the odd player goes back and forth between two tables. -/
def oddPlayer : Arrangement := ⟨[[1, 2], [3]], ∅⟩

theorem plan_is_legal_script_oddPlayer :
    (oddPlayer.tables.flatten.Nodup ∧
      (oddPlayer.plan ⟨4, 0, 0⟩ 3).moves = [⟨2, 0, 1⟩, ⟨2, 1, 0⟩, ⟨2, 0, 1⟩]) ∧
    replay? oddPlayer.tables [⟨2, 0, 1⟩, ⟨2, 1, 0⟩, ⟨2, 0, 1⟩] = some [[1], [3, 2]] ∧
    ∃ tables, replay? oddPlayer.tables [⟨2, 0, 1⟩] = some tables ∧
      Legal 0 tables (fun p => isRested (oddPlayer.history.lastMove 4 [⟨2, 0, 1⟩] p) 4 0)
        ⟨2, 1, 0⟩ := by
  have distinct : oddPlayer.tables.flatten.Nodup := by decide
  have moves : (oddPlayer.plan ⟨4, 0, 0⟩ 3).moves = [⟨2, 0, 1⟩, ⟨2, 1, 0⟩, ⟨2, 0, 1⟩] := by
    decide
  obtain ⟨legal, carried, -⟩ := plan_is_legal_script ⟨4, 0, 0⟩ 3 distinct
  rw [moves] at carried
  exact ⟨⟨distinct, moves⟩, carried, legal [⟨2, 0, 1⟩] ⟨2, 1, 0⟩ [⟨2, 0, 1⟩] moves⟩

end Arrangement

end CardRoom
