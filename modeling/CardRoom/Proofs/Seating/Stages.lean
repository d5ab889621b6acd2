import Mathlib
import CardRoom.Proofs.Seating.Standstill

/-! # The stages of a plan

The moves of a plan, carried out one by one, lead from the first tables to the last through stages.
From stage to stage the largest size does not grow, the smallest does not shrink and no table loses
its last player. So a table that gives has someone left, who stays there to the end, and a plan needs
fewer moves than there are players.
-/

namespace CardRoom

namespace Tables

/-- The tables after a move: the player leaves and sits down at the end of the other table. -/
def carryOut (tables : Tables) (m : TableMove) : Tables :=
  (tables.modify m.fromTable (·.erase m.playerId)).modify m.toTable (· ++ [m.playerId])

/-- The tables before the moves, after the first of them, and so on to the end. -/
def stages : Tables → List TableMove → List Tables
  | tables, [] => [tables]
  | tables, m :: moves => tables :: stages (tables.carryOut m) moves

theorem exists_stages_eq_cons (tables : Tables) (moves : List TableMove) :
    ∃ later, stages tables moves = tables :: later := by
  cases moves with
  | nil => exact ⟨[], rfl⟩
  | cons m moves => exact ⟨stages (tables.carryOut m) moves, rfl⟩

theorem head?_stages (tables : Tables) (moves : List TableMove) :
    (stages tables moves).head? = some tables := by
  obtain ⟨later, split⟩ := exists_stages_eq_cons tables moves
  rw [split, List.head?_cons]

variable {tables shifted : Tables} {m : TableMove}

theorem Shift.carryOut_eq (distinct : tables.flatten.Nodup) (shift : Shift tables m shifted) :
    tables.carryOut m = shifted := by
  obtain ⟨before, after, here, rfl⟩ := shift.moved
  have once : (before ++ m.playerId :: after).Nodup :=
    (List.nodup_flatten.mp distinct).1 _ (List.mem_of_getElem? here)
  rw [List.nodup_middle, List.nodup_cons, List.mem_append, not_or] at once
  have taken : (before ++ m.playerId :: after).erase m.playerId = before ++ after := by
    rw [List.erase_append_right _ once.1.1, List.erase_cons_head]
  have left : tables.modify m.fromTable (·.erase m.playerId) =
      tables.set m.fromTable (before ++ after) := by
    rw [List.modify_eq_set, here, Option.getD_some, taken]
  rw [carryOut, left]

end Tables

namespace Arrangement

open Tables

variable {rules : BalanceRules} {a : Arrangement}

section

variable (strict : 1 ≤ rules.allowedDiff) (limit : Nat) (distinct : a.tables.flatten.Nodup)
include strict distinct

/-- Carrying out the moves of a plan leads to the tables that it ends with. -/
theorem getLast?_stages :
    (stages a.tables (a.plan rules limit).moves).getLast? =
      some (a.plan rules limit).final.tables := by
  induction limit, a using plan_induction rules with
  | stop limit a blocked stops =>
      rw [stops]
      rfl
  | move limit a m b next_is goes_on ih =>
      have shift := (levelling_of_next strict next_is).toShift
      have later := ih (shift.flatten_perm.nodup_iff.mpr distinct)
      rw [goes_on, stages, shift.carryOut_eq distinct, List.getLast?_cons, later, Option.getD_some]

theorem steady_stages : (stages a.tables (a.plan rules limit).moves).Pairwise Steady := by
  rw [← List.isChain_iff_pairwise]
  induction limit, a using plan_induction rules with
  | stop limit a blocked stops => exact stops ▸ List.isChain_singleton a.tables
  | move limit a m b next_is goes_on ih =>
      have level := levelling_of_next strict next_is
      have later := ih (level.flatten_perm.nodup_iff.mpr distinct)
      rw [goes_on, stages, level.carryOut_eq distinct]
      refine List.isChain_cons.mpr ⟨fun stage first => ?_, later⟩
      rw [head?_stages, Option.mem_some_iff] at first
      exact first ▸ level.steady

/-- At every stage the tables that give have someone. -/
theorem donors_occupied {stage : Tables}
    (reached : stage ∈ stages a.tables (a.plan rules limit).moves) {m : TableMove}
    (listed : m ∈ (a.plan rules limit).moves) : stage.getD m.fromTable [] ≠ [] := by
  obtain ⟨t, here, member⟩ := (plan_carries strict limit distinct).seated m listed
  have seated : a.tables.getD m.fromTable [] ≠ [] := by
    rw [List.getD_eq_getElem?_getD, here, Option.getD_some]
    exact List.ne_nil_of_mem member
  have steady := steady_stages strict limit distinct
  obtain ⟨later, split⟩ := exists_stages_eq_cons a.tables (a.plan rules limit).moves
  rw [split] at reached steady
  rcases List.mem_cons.mp reached with rfl | after
  · exact seated
  · exact ((List.pairwise_cons.mp steady).1 stage after).occupied _ seated

/-- A table that gave a player has another one, who was never moved. -/
theorem length_moves_lt_of_ne_nil (some_moves : (a.plan rules limit).moves ≠ []) :
    (a.plan rules limit).moves.length < a.tables.flatten.length := by
  have carries := plan_carries strict limit distinct
  obtain ⟨m, listed⟩ := List.exists_mem_of_ne_nil _ some_moves
  obtain ⟨t, here, -⟩ := carries.seated m listed
  have places := carries.places m.fromTable
  have nobody_comes : arrivals (a.plan rules limit).moves m.fromTable = [] := by
    refine List.filter_eq_nil_iff.mpr fun n also_listed leads => ?_
    exact plan_apart strict limit a m listed n also_listed (of_decide_eq_true leads).symm
  have occupied := donors_occupied strict limit distinct
    (List.mem_of_getLast? (getLast?_stages strict limit distinct)) listed
  rw [here, Option.map_some, nobody_comes, List.map_nil, List.append_nil] at places
  rw [List.getD_eq_getElem?_getD, places, Option.getD_some] at occupied
  obtain ⟨p, member⟩ := List.exists_mem_of_ne_nil _ occupied
  exact carries.length_lt (List.mem_flatten.mpr ⟨_, List.mem_of_getElem? places, member⟩)
    (of_decide_eq_true (List.mem_filter.mp member).2)

/-- With a move for every player, a plan stops where there is nothing to do or nobody may move. -/
theorem next_final (enough : a.tables.flatten.length ≤ limit) :
    (a.plan rules limit).final.next rules =
      if (a.plan rules limit).blocked then .blocked else .balanced := by
  rcases plan_stops rules limit a with ⟨blocked, stuck⟩ | ⟨unblocked, -⟩
  · rw [blocked]
    exact stuck
  · rw [unblocked]
    exact next_eq_balanced_iff.mpr (balanced_of_plan strict distinct enough unblocked)

theorem plan_of_higher_limit (enough : a.tables.flatten.length ≤ limit) {higher : Nat}
    (le : limit ≤ higher) : a.plan rules higher = a.plan rules limit := by
  obtain ⟨more, rfl⟩ := Nat.exists_eq_add_of_le le
  rw [plan_add]
  by_cases none_more : more = 0
  · subst none_more
    simp [plan]
  · rw [plan_of_stopped none_more (next_final strict limit distinct enough)]
    simp

/-- When no player sits twice, no table both gives and takes and nobody is moved twice. From stage to
stage the largest size does not grow and the smallest does not shrink, and tables that give keep
someone. So there are fewer moves than players, and a plan that may move every player stops by
itself: a higher limit changes nothing. -/
theorem plan_moves_nobody_twice :
    (∀ m ∈ (a.plan rules limit).moves, ∀ n ∈ (a.plan rules limit).moves,
      m.fromTable ≠ n.toTable) ∧
    ((a.plan rules limit).moves.map TableMove.playerId).Nodup ∧
    (stages a.tables (a.plan rules limit).moves).getLast? =
      some (a.plan rules limit).final.tables ∧
    ((stages a.tables (a.plan rules limit).moves).Pairwise fun before after =>
      largest after ≤ largest before ∧ smallest before ≤ smallest after) ∧
    (∀ stage ∈ stages a.tables (a.plan rules limit).moves,
      ∀ m ∈ (a.plan rules limit).moves, stage.getD m.fromTable [] ≠ []) ∧
    ((a.plan rules limit).moves ≠ [] →
      (a.plan rules limit).moves.length < a.tables.flatten.length) ∧
    (a.tables.flatten.length ≤ limit →
      (a.plan rules limit).final.next rules =
        (if (a.plan rules limit).blocked then .blocked else .balanced) ∧
      ∀ higher, limit ≤ higher → a.plan rules higher = a.plan rules limit) := by
  refine ⟨plan_apart strict limit a, (plan_carries strict limit distinct).once,
    getLast?_stages strict limit distinct, ?_, ?_, length_moves_lt_of_ne_nil strict limit distinct,
    fun enough => ⟨next_final strict limit distinct enough, ?_⟩⟩
  · exact (steady_stages strict limit distinct).imp fun steady =>
      ⟨steady.largest_le, steady.smallest_le⟩
  · intro stage reached m listed
    exact donors_occupied strict limit distinct reached listed
  · intro higher le
    exact plan_of_higher_limit strict limit distinct enough le

end

/-- A full table, an empty one and one with a single player, none of whom has been moved yet. -/
def unevenTables : Arrangement := ⟨[[1, 2, 3, 4, 5], [], [6]], ∅⟩

theorem plan_moves_nobody_twice_unevenTables :
    (1 ≤ (BalanceRules.mk 9 5 1).allowedDiff ∧ unevenTables.tables.flatten.Nodup ∧
      (unevenTables.plan ⟨9, 5, 1⟩ 6).moves = [⟨5, 0, 1⟩, ⟨4, 0, 1⟩, ⟨3, 0, 2⟩]) ∧
    (unevenTables.plan ⟨9, 5, 1⟩ 6).moves.length < 6 ∧
    ∀ higher, 6 ≤ higher → unevenTables.plan ⟨9, 5, 1⟩ higher = unevenTables.plan ⟨9, 5, 1⟩ 6 := by
  have strict : 1 ≤ (BalanceRules.mk 9 5 1).allowedDiff := by decide
  have distinct : unevenTables.tables.flatten.Nodup := by decide
  have moves : (unevenTables.plan ⟨9, 5, 1⟩ 6).moves = [⟨5, 0, 1⟩, ⟨4, 0, 1⟩, ⟨3, 0, 2⟩] := by
    decide
  obtain ⟨-, -, -, -, -, fewer, stops⟩ := plan_moves_nobody_twice strict 6 distinct
  exact ⟨⟨strict, distinct, moves⟩, fewer (by simp [moves]), (stops le_rfl).2⟩

end Arrangement

end CardRoom
