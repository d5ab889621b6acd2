import Mathlib
import CardRoom.Proofs.Seating.Plan

/-! # Where a plan stops

A plan stops at balanced tables, at a fullest table where nobody may be moved, or at its limit.
While the tables are not balanced, the players at the fullest one have not been moved by the plan.
So a plan never needs as many moves as there are players, and what blocks it are moves that were
made before it. A plan that was cut short at its limit can be taken up again where it stopped.
-/

namespace CardRoom

theorem Tables.Course.weaken {tables : Tables} {gave gave' took took' : Nat → Prop}
    (course : Course gave took tables) (fewer : ∀ i, gave' i → gave i)
    (also_fewer : ∀ i, took' i → took i) : Course gave' took' tables where
  given i t gives := course.given i t (fewer i gives)
  taken i t takes := course.taken i t (also_fewer i takes)

/-- The players at the first of the fullest tables. -/
def Tables.atFullest (tables : Tables) : List PlayerId := tables.getD (fullest tables) []

namespace Arrangement

variable {rules : BalanceRules} {a : Arrangement} {limit : Nat}

theorem next_eq_balanced_iff :
    a.next rules = .balanced ↔ Tables.Balanced rules.allowedDiff a.tables := by
  unfold next
  split
  · simpa
  · rename_i unbalanced
    cases taken : takeLast? (a.mayMove rules) (a.tables.getD (Tables.fullest a.tables) [])
    all_goals simp only [taken, reduceCtorEq, unbalanced]

theorem next_eq_blocked_iff :
    a.next rules = .blocked ↔ ¬ Tables.Balanced rules.allowedDiff a.tables ∧
      ∀ p ∈ Tables.atFullest a.tables, a.mayMove rules p = false := by
  unfold next
  split
  · rename_i balanced
    simp [balanced]
  · rename_i unbalanced
    rw [Tables.atFullest, ← takeLast?_eq_none_iff]
    cases taken : takeLast? (a.mayMove rules) (a.tables.getD (Tables.fullest a.tables) [])
    all_goals simp only [taken, reduceCtorEq, unbalanced, not_false_eq_true, and_self, and_false]

/-- The three ways for a plan to stop. -/
theorem plan_stops (rules : BalanceRules) (limit : Nat) (a : Arrangement) :
    (a.plan rules limit).blocked = true ∧ (a.plan rules limit).final.next rules = .blocked ∨
      (a.plan rules limit).blocked = false ∧
        ((a.plan rules limit).final.next rules = .balanced ∨
          (a.plan rules limit).moves.length = limit) := by
  induction limit generalizing a with
  | zero => exact .inr ⟨rfl, .inr rfl⟩
  | succ limit ih =>
      unfold plan
      cases next_is : a.next rules with
      | balanced => exact .inr ⟨rfl, .inl next_is⟩
      | blocked => exact .inl ⟨rfl, next_is⟩
      | move m b => simpa using ih b

theorem length_moves_le (rules : BalanceRules) (limit : Nat) (a : Arrangement) :
    (a.plan rules limit).moves.length ≤ limit := by
  induction limit, a using plan_induction rules with
  | stop limit a blocked stops => simp [stops]
  | move limit a m b next_is goes_on ih =>
      rw [goes_on, List.length_cons]
      omega

/-- A plan may be made in two parts, the second one where the first one stopped. -/
theorem plan_add (rules : BalanceRules) (first second : Nat) (a : Arrangement) :
    a.plan rules (first + second) =
      ⟨(a.plan rules first).moves ++ ((a.plan rules first).final.plan rules second).moves,
        ((a.plan rules first).final.plan rules second).final,
        (a.plan rules first).blocked || ((a.plan rules first).final.plan rules second).blocked⟩ := by
  induction first generalizing a with
  | zero => simp [plan]
  | succ first ih =>
      rw [Nat.succ_add]
      cases next_is : a.next rules with
      | balanced | blocked => cases second <;> simp [plan, next_is]
      | move m b => simp only [plan, next_is, ih b, List.cons_append]

theorem plan_of_blocked (stuck : a.next rules = .blocked) (some_moves : limit ≠ 0) :
    a.plan rules limit = ⟨[], a, true⟩ := by
  cases limit with
  | zero => exact absurd rfl some_moves
  | succ limit => simp only [plan, stuck]

theorem plan_of_stopped {blocked : Bool} (some_moves : limit ≠ 0)
    (stopped : a.next rules = if blocked then .blocked else .balanced) :
    a.plan rules limit = ⟨[], a, blocked⟩ := by
  cases blocked with
  | true => exact plan_of_blocked stopped some_moves
  | false =>
      cases limit with
      | zero => rfl
      | succ limit => simp [plan, stopped]

theorem moves_of_stopped (stopped : ∀ m b, a.next rules ≠ .move m b) (limit : Nat) :
    (a.plan rules limit).moves = [] := by
  cases limit with
  | zero => rfl
  | succ limit =>
      unfold plan
      cases next_is : a.next rules with
      | balanced => rfl
      | blocked => rfl
      | move m b => exact absurd next_is (stopped m b)

/-- A plan of fewer moves than a longer one makes all of them and leaves the tables unbalanced. -/
theorem plan_of_fewer {n : Nat} (fewer : n < (a.plan rules limit).moves.length) :
    (a.plan rules n).moves.length = n ∧
      ¬ Tables.Balanced rules.allowedDiff (a.plan rules n).final.tables := by
  obtain ⟨more, rfl⟩ := Nat.exists_eq_add_of_le (fewer.le.trans (length_moves_le rules limit a))
  have bound := length_moves_le rules n a
  have goes_on : ((a.plan rules n).final.plan rules more).moves ≠ [] := by
    intro stops
    simp only [plan_add, stops, List.append_nil] at fewer
    omega
  rcases plan_stops rules n a with ⟨-, stuck⟩ | ⟨-, settled | full⟩
  · exact absurd (moves_of_stopped (by simp [stuck]) more) goes_on
  · exact absurd (moves_of_stopped (by simp [settled]) more) goes_on
  · refine ⟨full, fun balanced => goes_on (moves_of_stopped ?_ more)⟩
    simp [next_eq_balanced_iff.mpr balanced]

/-- A plan writes its hand down for the players it moves and for nobody else. -/
theorem getElem?_history_plan (rules : BalanceRules) (limit : Nat) (a : Arrangement)
    (p : PlayerId) :
    (a.plan rules limit).final.history[p]? =
      if p ∈ (a.plan rules limit).moves.map TableMove.playerId then some rules.hand
      else a.history[p]? := by
  induction limit, a using plan_induction rules with
  | stop limit a blocked stops => simp [stops]
  | move limit a m b next_is goes_on ih =>
      obtain ⟨-, -, -, before, after, -, -, -, rfl⟩ := next_eq_move next_is
      rw [goes_on, ih]
      by_cases mover : m.playerId = p
      · simp [mover]
      · simp [Std.TreeMap.getElem?_insert, mover, Ne.symm mover]

theorem course_final (strict : 1 ≤ rules.allowedDiff) (limit : Nat) {gave took : Nat → Prop}
    (course : Tables.Course gave took a.tables) :
    Tables.Course (fun i => gave i ∨ ∃ m ∈ (a.plan rules limit).moves, m.fromTable = i)
      (fun i => took i ∨ ∃ m ∈ (a.plan rules limit).moves, m.toTable = i)
      (a.plan rules limit).final.tables := by
  induction limit, a using plan_induction rules generalizing gave took with
  | stop limit a blocked stops =>
      rw [stops]
      exact course.weaken (by simp) (by simp)
  | move limit a m b next_is goes_on ih =>
      have later := ih (course.step (levelling_of_next strict next_is))
      rw [goes_on]
      exact later.weaken (by simp; grind) (by simp; grind)

section

variable (strict : 1 ≤ rules.allowedDiff) (distinct : a.tables.flatten.Nodup)
  (unbalanced : ¬ Tables.Balanced rules.allowedDiff (a.plan rules limit).final.tables)
include strict unbalanced

theorem atFullest_final : ∃ t,
    (a.plan rules limit).final.tables[Tables.fullest (a.plan rules limit).final.tables]? =
        some t ∧
      Tables.atFullest (a.plan rules limit).final.tables = t ∧
      Tables.smallest (a.plan rules limit).final.tables + 2 ≤ t.length := by
  have nonempty := Tables.ne_nil_of_unbalanced unbalanced
  obtain ⟨t, here, size⟩ := Tables.getElem?_of_idxOf_sizes (Tables.largest_mem nonempty)
  rw [← Tables.fullest] at here
  refine ⟨t, here, ?_, ?_⟩
  · rw [Tables.atFullest, List.getD_eq_getElem?_getD, here, Option.getD_some]
  · rw [size]
    exact Tables.steep_of_unbalanced unbalanced strict

include distinct

/-- Nobody was moved to a table that is fullest in the end. -/
theorem not_moved_of_mem_atFullest {p : PlayerId}
    (seated : p ∈ Tables.atFullest (a.plan rules limit).final.tables) :
    p ∉ (a.plan rules limit).moves.map TableMove.playerId := by
  obtain ⟨t, here, rfl, large⟩ := atFullest_final strict unbalanced
  have fresh : Tables.Course (fun _ => False) (fun _ => False) a.tables := ⟨by simp, by simp⟩
  have course := course_final strict limit fresh
  have places := (plan_carries strict limit distinct).places
    (Tables.fullest (a.plan rules limit).final.tables)
  rw [here] at places
  obtain ⟨before, -, same⟩ := Option.map_eq_some_iff.mp places.symm
  rw [← same] at seated
  intro moved
  rcases List.mem_append.mp seated with stayed | came
  · exact of_decide_eq_true (List.mem_filter.mp stayed).2 moved
  · obtain ⟨m, arrived, -⟩ := List.mem_map.mp came
    obtain ⟨listed, leads⟩ := List.mem_filter.mp arrived
    have low := course.taken _ _ (.inr ⟨m, listed, of_decide_eq_true leads⟩) here
    omega

theorem length_moves_lt : (a.plan rules limit).moves.length < a.tables.flatten.length := by
  obtain ⟨t, here, same, large⟩ := atFullest_final strict unbalanced
  obtain ⟨p, member⟩ : ∃ p, p ∈ t := List.exists_mem_of_length_pos (by omega)
  have stays := not_moved_of_mem_atFullest strict distinct unbalanced (same ▸ member)
  exact (plan_carries strict limit distinct).length_lt
    (List.mem_flatten.mpr ⟨t, List.mem_of_getElem? here, member⟩) stays

end

section

variable (strict : 1 ≤ rules.allowedDiff) (distinct : a.tables.flatten.Nodup)
include strict distinct

/-- With a move for every player, a plan that is not blocked balances the tables. -/
theorem balanced_of_plan (enough : a.tables.flatten.length ≤ limit)
    (unblocked : (a.plan rules limit).blocked = false) :
    Tables.Balanced rules.allowedDiff (a.plan rules limit).final.tables := by
  rcases plan_stops rules limit a with ⟨blocked, -⟩ | ⟨-, settled | cut_short⟩
  · rw [unblocked] at blocked
    cases blocked
  · exact next_eq_balanced_iff.mp settled
  · by_contra unbalanced
    have fewer := length_moves_lt strict distinct unbalanced
    omega

/-- A plan is blocked by players whom it has not moved. -/
theorem blocked_of_plan (blocked : (a.plan rules limit).blocked = true) :
    ¬ Tables.Balanced rules.allowedDiff (a.plan rules limit).final.tables ∧
      ∀ p ∈ Tables.atFullest (a.plan rules limit).final.tables,
        p ∉ (a.plan rules limit).moves.map TableMove.playerId ∧ a.mayMove rules p = false := by
  rcases plan_stops rules limit a with ⟨-, stuck⟩ | ⟨unblocked, -⟩
  · obtain ⟨unbalanced, restless⟩ := next_eq_blocked_iff.mp stuck
    refine ⟨unbalanced, fun p seated => ?_⟩
    have stays := not_moved_of_mem_atFullest strict distinct unbalanced seated
    have waits := restless p seated
    rw [mayMove, getElem?_history_plan, if_neg stays] at waits
    exact ⟨stays, waits⟩
  · rw [blocked] at unblocked
    cases unblocked

end

/-! ## Taking a plan up again -/

theorem stopped_of_short (short : (a.plan rules limit).moves.length < limit) :
    (a.plan rules limit).final.next rules =
      if (a.plan rules limit).blocked then .blocked else .balanced := by
  rcases plan_stops rules limit a with ⟨blocked, stuck⟩ | ⟨unblocked, settled | full⟩
  · rw [if_pos blocked, stuck]
  · rw [if_neg (by simp [unblocked]), settled]
  · exact absurd full short.ne

/-- What blocks a plan blocks the next one too. -/
theorem blocked_again (blocked : (a.plan rules limit).blocked = true) {more : Nat}
    (some_moves : more ≠ 0) : ((a.plan rules limit).final.plan rules more).blocked = true := by
  rcases plan_stops rules limit a with ⟨-, stuck⟩ | ⟨unblocked, -⟩
  · rw [plan_of_blocked stuck some_moves]
  · rw [blocked] at unblocked
    cases unblocked

/-- A plan that is taken up where it was cut short comes to the same as one that was not: the same
moves in the same order, the same tables and the same history, and it is blocked if the rest is. A
plan that was not cut short stops again at once, and for the same reason. -/
theorem plan_taken_up_again (rules : BalanceRules) (first second : Nat) (a : Arrangement) :
    let part := a.plan rules first
    let rest := part.final.plan rules second
    let whole := a.plan rules (first + second)
    whole.moves = part.moves ++ rest.moves ∧
      whole.final.tables = rest.final.tables ∧
      whole.final.history = rest.final.history ∧
      (second ≠ 0 → whole.blocked = rest.blocked) ∧
      (part.moves.length < first → second ≠ 0 → rest.moves = [] ∧ rest.blocked = part.blocked) := by
  intro part rest whole
  have joined : whole = ⟨part.moves ++ rest.moves, rest.final, part.blocked || rest.blocked⟩ :=
    plan_add rules first second a
  refine ⟨by rw [joined], by rw [joined], by rw [joined], fun some_moves => ?_,
    fun short some_moves => ?_⟩
  · rw [joined]
    cases stuck : part.blocked with
    | false => rfl
    | true => exact (blocked_again stuck some_moves).symm
  · have stops : rest = ⟨[], part.final, part.blocked⟩ :=
      plan_of_stopped some_moves (stopped_of_short short)
    exact ⟨by rw [stops], by rw [stops]⟩

/-- Players 1 to 3 were moved a hand ago, so only two of five can leave the first table. -/
def lateMovers : Arrangement :=
  ⟨[[1, 2, 3, 4, 5], [], [6]], ((∅ : MoveHistory).insert 1 8 |>.insert 2 8).insert 3 8⟩

/-- A plan that is cut short after one of its two moves, and one with a move to spare. -/
theorem plan_taken_up_again_lateMovers :
    (lateMovers.plan ⟨9, 5, 1⟩ 1).moves = [⟨5, 0, 1⟩] ∧
      (lateMovers.plan ⟨9, 5, 1⟩ 4).moves =
        [⟨5, 0, 1⟩] ++ ((lateMovers.plan ⟨9, 5, 1⟩ 1).final.plan ⟨9, 5, 1⟩ 3).moves ∧
      (3 ≠ 0 ∧ (lateMovers.plan ⟨9, 5, 1⟩ 4).blocked =
        ((lateMovers.plan ⟨9, 5, 1⟩ 1).final.plan ⟨9, 5, 1⟩ 3).blocked) ∧
      (lateMovers.plan ⟨9, 5, 1⟩ 4).blocked = true ∧
      (lateMovers.plan ⟨9, 5, 1⟩ 3).moves.length < 3 ∧
      ((lateMovers.plan ⟨9, 5, 1⟩ 3).final.plan ⟨9, 5, 1⟩ 1).moves = [] := by
  have moves : (lateMovers.plan ⟨9, 5, 1⟩ 1).moves = [⟨5, 0, 1⟩] := by decide
  have short : (lateMovers.plan ⟨9, 5, 1⟩ 3).moves.length < 3 := by decide
  obtain ⟨joined, -, -, reported, -⟩ := plan_taken_up_again ⟨9, 5, 1⟩ 1 3 lateMovers
  obtain ⟨-, -, -, -, stops⟩ := plan_taken_up_again ⟨9, 5, 1⟩ 3 1 lateMovers
  rw [moves] at joined
  exact ⟨moves, joined, ⟨by decide, reported (by decide)⟩, by decide, short,
    (stops short (by decide)).1⟩

end Arrangement

end CardRoom
