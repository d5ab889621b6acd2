import Mathlib
import CardRoom.Chips
import CardRoom.Payout.Icm
import CardRoom.Payout.Ladder
import CardRoom.Proofs.Payout.Recall
import CardRoom.Proofs.Payout.Rounding

/-! # Dealing one by one

Missing units are dealt one at a time, and the dealer goes round the places in a fixed order as often
as the units last. One unit more moves on to the next place, so `topUp` is what a place has got
after any number of units: the same for everyone, and one more for the places that the last round
still reached.
-/

namespace CardRoom

/-- The amounts after one more unit, which goes to the place that is next in the order. -/
def dealUnit (order amounts : List Nat) (dealt : Nat) : List Nat :=
  amounts.modify (order.getD (dealt % order.length) 0) (· + 1)

/-- The amounts after so many units. -/
def dealUnits (order : List Nat) (units : Nat) (amounts : List Nat) : List Nat :=
  (List.range units).foldl (dealUnit order) amounts

theorem dealUnits_succ (order : List Nat) (units : Nat) (amounts : List Nat) :
    dealUnits order (units + 1) amounts = dealUnit order (dealUnits order units amounts) units := by
  rw [dealUnits, List.range_succ, List.foldl_append]
  rfl

theorem topUp_succ (units : Nat) {n rank : Nat} (inside : rank < n) :
    topUp (units + 1) n rank = topUp units n rank + if units % n = rank then 1 else 0 := by
  have some_place : 0 < n := by omega
  have small := Nat.mod_lt units some_place
  have whole := Nat.div_add_mod units n
  by_cases last : units % n + 1 = n
  · -- The round is complete, and the next unit begins another one.
    have full : units + 1 = n * (units / n + 1) := by
      rw [Nat.mul_add, Nat.mul_one]
      omega
    have quotient : (units + 1) / n = units / n + 1 := by
      rw [full, Nat.mul_div_cancel_left _ some_place]
    have rest : (units + 1) % n = 0 := by rw [full, Nat.mul_mod_right]
    unfold topUp
    rw [quotient, rest]
    grind
  · have next : units + 1 = n * (units / n) + (units % n + 1) := by omega
    have below : units % n + 1 < n := by omega
    have quotient : (units + 1) / n = units / n := by
      rw [next, Nat.mul_add_div some_place, Nat.div_eq_of_lt below, Nat.add_zero]
    have rest : (units + 1) % n = units % n + 1 := by
      rw [next, Nat.mul_add_mod, Nat.mod_eq_of_lt below]
    unfold topUp
    rw [quotient, rest]
    grind

section

variable {order : List Nat} (distinct : order.Nodup) {i : Nat} (listed : i ∈ order)
include distinct listed

theorem getElem?_dealUnit (amounts : List Nat) (dealt : Nat) :
    (dealUnit order amounts dealt)[i]? =
      amounts[i]?.map (· + if dealt % order.length = order.idxOf i then 1 else 0) := by
  have some_place := List.length_pos_of_mem listed
  have inside := Nat.mod_lt dealt some_place
  have turn : order.getD (dealt % order.length) 0 = i ↔
      dealt % order.length = order.idxOf i := by
    rw [List.getD_eq_getElem _ _ inside]
    constructor
    · rintro rfl
      rw [distinct.idxOf_getElem]
    · intro same
      simp only [same, List.getElem_idxOf]
  rw [dealUnit, List.getElem?_modify, Option.map_eq_map]
  by_cases here : order.getD (dealt % order.length) 0 = i
  · simp only [if_pos here, if_pos (turn.mp here)]
  · simp only [if_neg here, if_neg (mt turn.mpr here), Nat.add_zero]

theorem getElem?_dealUnits (amounts : List Nat) (units : Nat) :
    (dealUnits order units amounts)[i]? =
      amounts[i]?.map (· + topUp units order.length (order.idxOf i)) := by
  induction units with
  | zero => simp [dealUnits, topUp]
  | succ units ih =>
      rw [dealUnits_succ, getElem?_dealUnit distinct listed, ih, Option.map_map,
        topUp_succ _ (List.idxOf_lt_length_of_mem listed)]
      simp only [Function.comp_def, Nat.add_assoc]

end

@[simp] theorem length_dealUnits (order : List Nat) (units : Nat) (amounts : List Nat) :
    (dealUnits order units amounts).length = amounts.length := by
  induction units with
  | zero => rfl
  | succ units ih => rw [dealUnits_succ, dealUnit, List.length_modify, ih]

/-- Dealing round all places tops each one up by its rank. -/
theorem dealUnits_eq_mapIdx {order amounts : List Nat}
    (all : order.Perm (List.range amounts.length)) (units : Nat) :
    dealUnits order units amounts =
      amounts.mapIdx fun i n => n + topUp units amounts.length (order.idxOf i) := by
  have distinct : order.Nodup := all.nodup_iff.mpr List.nodup_range
  have length : order.length = amounts.length := by simpa using all.length_eq
  apply List.ext_getElem?
  intro i
  rw [List.getElem?_mapIdx]
  cases here : amounts[i]? with
  | none =>
      have outside := List.getElem?_eq_none_iff.mp here
      exact List.getElem?_eq_none_iff.mpr (by rwa [length_dealUnits])
  | some n =>
      have inside := (List.getElem?_eq_some_iff.mp here).1
      have listed : i ∈ order := all.mem_iff.mpr (List.mem_range.mpr inside)
      rw [getElem?_dealUnits distinct listed, here, length]

theorem largestRemainder_eq_dealUnits {R : Type} [Fractional R] (raw : List R) (total : Nat) :
    largestRemainder raw total =
      dealUnits (remainderOrder raw) (missing raw total) (raw.map Fractional.whole) := by
  have all : (remainderOrder raw).Perm (List.range (raw.map Fractional.whole).length) := by
    rw [List.length_map]
    exact remainderOrder_perm raw
  rw [dealUnits_eq_mapIdx all, List.length_map]
  rfl

theorem Ladder.dealOut_eq_dealUnits (pool : Nat) (portions : List Nat) :
    dealOut pool portions =
      dealUnits (List.range portions.length) (pool - tally portions) portions := by
  rw [dealUnits_eq_mapIdx (List.Perm.refl _)]
  apply List.ext_getElem?
  intro i
  rw [dealOut, List.getElem?_mapIdx, List.getElem?_mapIdx]
  cases here : portions[i]? with
  | none => rfl
  | some n =>
      have inside := (List.getElem?_eq_some_iff.mp here).1
      have rank : (List.range portions.length).idxOf i = i := by
        have listed : i < (List.range portions.length).length := by rwa [List.length_range]
        have place := List.nodup_range.idxOf_getElem i listed
        rwa [List.getElem_range] at place
      rw [Option.map_some, Option.map_some, rank]

/-! ## The largest remainders of doubles -/

theorem topUp_cases (units n rank : Nat) :
    topUp units n rank = units / n ∨ topUp units n rank = units / n + 1 := by
  unfold topUp
  split
  · exact .inr rfl
  · exact .inl (Nat.add_zero _)

theorem tally_largestRemainder_of_le {R : Type} [Fractional R] {raw : List R} {total : Nat}
    (nonempty : raw ≠ []) (enough : tally (raw.map Fractional.whole) ≤ total) :
    tally (largestRemainder raw total) = total := by
  rw [tally_largestRemainder nonempty, missing, Nat.add_sub_cancel' enough]

namespace Binary64

theorem atLeast_iff {a b : Float} : Fractional.atLeast a b = true ↔ orderKey b ≤ orderKey a :=
  decide_eq_true_iff

/-- Comparing by bits is total, so doubles whose fractional parts differ are ranked by them. -/
theorem rankOf_lt_of_ahead {raw : List Float} {i j : Nat} {v w : Float} (here : raw[i]? = some v)
    (there : raw[j]? = some w)
    (ahead : orderKey (Fractional.fraction w) < orderKey (Fractional.fraction v) ∨
      orderKey (Fractional.fraction w) = orderKey (Fractional.fraction v) ∧ i < j) :
    rankOf raw i < rankOf raw j := by
  apply rankOf_lt (R := Float) _ _ here there
  · rw [atLeast_iff]
    omega
  · rw [atLeast_iff]
    omega
  · intro a b c first second
    rw [atLeast_iff] at *
    omega
  · intro a b
    rw [Bool.or_eq_true, atLeast_iff, atLeast_iff]
    omega

end Binary64

namespace Icm

/-- Whatever doubles are rounded, dealing what rounding down leaves of the total makes up the total.
Each place gets the same number of units or one more, and a place with a larger fractional part, or
with an equal one and ahead in the list, gets no less. So accepted prizes that add up within 64 bits are
paid in full as long as the expected payouts, rounded down, do not exceed them. -/
theorem shortfall_dealt_by_fractions :
    (∀ (raw : List Float) (total : Nat), raw ≠ [] →
      tally (raw.map Fractional.whole) ≤ total →
      let left := total - tally (raw.map Fractional.whole)
      let paid := largestRemainder raw total
      paid = dealUnits (remainderOrder raw) left (raw.map Fractional.whole) ∧
      paid.length = raw.length ∧ tally paid = total ∧
      ∃ extra : Nat → Nat,
        (∀ (i : Nat) (v : Float), raw[i]? = some v →
          paid[i]? = some (Fractional.whole v + extra i) ∧
          (extra i = left / raw.length ∨ extra i = left / raw.length + 1)) ∧
        ∀ (i j : Nat) (v w : Float), raw[i]? = some v → raw[j]? = some w →
          Binary64.orderKey (Fractional.fraction w) < Binary64.orderKey (Fractional.fraction v) ∨
            Binary64.orderKey (Fractional.fraction w) = Binary64.orderKey (Fractional.fraction v) ∧
              i < j →
          extra j ≤ extra i) ∧
    ∀ (holdings prizes : List Nat) (limit : Nat), check holdings prizes limit = .ok () →
      tally prizes ≤ cap →
      tally ((divide holdings prizes : List Float).map Fractional.whole) ≤ tally prizes →
      ∃ paid, payouts holdings prizes limit = .ok paid ∧ paid.length = holdings.length ∧
        tally paid = tally prizes := by
  refine ⟨fun raw total nonempty enough => ?_, fun holdings prizes limit accepted _ enough => ?_⟩
  · refine ⟨largestRemainder_eq_dealUnits raw total, length_largestRemainder raw total,
      tally_largestRemainder_of_le nonempty enough,
      fun i => topUp (missing raw total) raw.length (rankOf raw i), fun i v here => ?_,
      fun i j v w here there ahead => ?_⟩
    · rw [getElem?_largestRemainder, here]
      exact ⟨rfl, topUp_cases _ _ _⟩
    · exact topUp_anti _ _ (Binary64.rankOf_lt_of_ahead here there ahead).le
  · have length : (divide holdings prizes : List Float).length = holdings.length := by
      rw [divide_eq_expectations accepted, length_expectations, List.length_map]
    have nonempty : (divide holdings prizes : List Float) ≠ [] := by
      have some_stack := List.length_pos_of_ne_nil (check_eq_ok_iff.mp accepted).1
      exact List.ne_nil_of_length_pos (length ▸ some_stack)
    exact ⟨_, by rw [payouts, accepted]; rfl, (length_largestRemainder _ _).trans length,
      tally_largestRemainder_of_le nonempty enough⟩

/-- Seven units are left for two places, and two stacks divide a prize that does not go up evenly. -/
theorem shortfall_dealt_by_fractions_sevenUnits :
    ([2.25, 1.5] : List Float) ≠ [] ∧
      tally (([2.25, 1.5] : List Float).map Fractional.whole) ≤ 10 ∧
      tally (largestRemainder ([2.25, 1.5] : List Float) 10) = 10 ∧
      check [2, 1] [100] maxPlayers = .ok () ∧ tally [100] ≤ cap ∧
      tally ((divide [2, 1] [100] : List Float).map Fractional.whole) ≤ 100 ∧
      ∃ paid, payouts [2, 1] [100] maxPlayers = .ok paid ∧ tally paid = 100 := by
  have nonempty : ([2.25, 1.5] : List Float) ≠ [] := by decide
  have enough : tally (([2.25, 1.5] : List Float).map Fractional.whole) ≤ 10 := by decide
  have accepted : check [2, 1] [100] maxPlayers = .ok () := rfl
  have fits : tally [100] ≤ cap := by decide
  have few : ([2, 1] : List Nat).length < 32 := by decide
  have covered : tally ((divide [2, 1] [100] : List Float).map Fractional.whole) ≤ 100 := by
    rw [divide_of_lt few]
    decide +kernel
  obtain ⟨-, -, dealt, -⟩ := shortfall_dealt_by_fractions.1 [2.25, 1.5] 10 nonempty enough
  obtain ⟨paid, paid_out, -, sum⟩ :=
    shortfall_dealt_by_fractions.2 [2, 1] [100] maxPlayers accepted fits covered
  exact ⟨nonempty, enough, dealt, accepted, fits, covered, paid, paid_out, sum⟩

end Icm

end CardRoom
