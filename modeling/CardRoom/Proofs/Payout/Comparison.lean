import Mathlib
import CardRoom.Proofs.Payout.Exact
import CardRoom.Proofs.Payout.Prospect

/-! # Larger stacks

Two players have the same rivals beside each other, so with prizes that go down the one with the
larger stack expects no less. Whoever expects more is paid no less either: of two numbers with
the same whole part the larger one comes first when the missing units are dealt, and otherwise the
whole parts differ by as much as one missing unit can make up.
-/

namespace CardRoom

/-- A larger number is not rounded to less, whatever the total. -/
theorem rounded_le_rounded {raw : List ℚ} {i j : Nat} {v w : ℚ} (here : raw[i]? = some v)
    (there : raw[j]? = some w) (less : v < w) (nonneg : 0 ≤ v) (fits : w ≤ cap) (total : Nat) :
    Fractional.whole v + topUp (missing raw total) raw.length (rankOf raw i) ≤
      Fractional.whole w + topUp (missing raw total) raw.length (rankOf raw j) := by
  rcases (whole_le_whole less.le).lt_or_eq with apart | same
  · have units := topUp_le_succ (missing raw total) raw.length (rankOf raw i) (rankOf raw j)
    omega
  · have difference := fraction_sub_fraction less.le nonneg fits same
    have ahead : rankOf raw j < rankOf raw i :=
      (rankOf_lt_rankOf_iff there here).mpr
        ⟨by linarith, fun behind => absurd behind (not_le.mpr (by linarith))⟩
    have units := topUp_anti (missing raw total) raw.length ahead.le
    omega

namespace Icm

theorem expectation_le_expectation {prizes holdings : List ℚ} {i j : Nat} {own more v w : ℚ}
    (falling : Falling prizes) (positive : ∀ s ∈ holdings, 0 < s) (here : holdings[i]? = some own)
    (there : holdings[j]? = some more) (first : (expectations prizes holdings)[i]? = some v)
    (second : (expectations prizes holdings)[j]? = some w) (le : own ≤ more) : v ≤ w := by
  rw [getElem?_expectations, here] at first
  rw [getElem?_expectations, there] at second
  obtain rfl := Option.some.inj first
  obtain rfl := Option.some.inj second
  by_cases apart : j = i
  · subst apart
    obtain rfl : own = more := Option.some.inj (here.symm.trans there)
    exact le_rfl
  · have rivals := coe_eraseIdx_of_ne there here (Ne.symm apart)
    rw [coe_eraseIdx_of_ne here there apart, Multiset.erase_cons_head] at rivals
    rw [coe_eraseIdx_of_ne here there apart, rivals, Multiset.erase_cons_head]
    exact prospect_le_prospect falling (positive own (List.mem_of_getElem? here)) le
      (positive_erase (positive_eraseIdx positive i) more)

/-- Over exact fractions and with prizes that go down, the player with the larger one of two
stacks expects no less, and players with equal stacks expect the same. Whoever expects more is paid
no less, and the payouts of two who expect the same differ by one at most. -/
theorem larger_stack_fares_no_worse (holdings prizes : List Nat) (i j s t : Nat)
    (positive : ∀ n ∈ holdings, 0 < n) (down : prizes.Pairwise (· ≥ ·))
    (enough : prizes.length ≤ holdings.length) (here : holdings[i]? = some s)
    (there : holdings[j]? = some t) :
    let raw : List ℚ := expectations (prizes.map Nat.cast) (holdings.map Nat.cast)
    let paid := largestRemainder raw (tally prizes)
    (holdings.length < 32 → divide holdings prizes = raw) ∧
    ∃ v w, raw[i]? = some v ∧ raw[j]? = some w ∧ (t ≤ s → w ≤ v) ∧ (s = t → v = w) ∧
      ((∀ p ∈ prizes, p ≤ cap) → ∃ m n, paid[i]? = some m ∧ paid[j]? = some n ∧
        (w < v → n ≤ m) ∧ (v = w → m ≤ n + 1 ∧ n ≤ m + 1)) := by
  intro raw paid
  have falling := Falling.cast down
  have all_pos := cast_pos positive
  have own : (holdings.map (Nat.cast : Nat → ℚ))[i]? = some ↑s := by
    rw [List.getElem?_map, here, Option.map_some]
  have other : (holdings.map (Nat.cast : Nat → ℚ))[j]? = some ↑t := by
    rw [List.getElem?_map, there, Option.map_some]
  obtain ⟨v, first⟩ : ∃ v, raw[i]? = some v :=
    ⟨_, by rw [getElem?_expectations, own, Option.map_some]⟩
  obtain ⟨w, second⟩ : ∃ w, raw[j]? = some w :=
    ⟨_, by rw [getElem?_expectations, other, Option.map_some]⟩
  have larger : t ≤ s → w ≤ v := fun le =>
    expectation_le_expectation falling all_pos other own second first (Nat.cast_le.mpr le)
  have smaller : s ≤ t → v ≤ w := fun le =>
    expectation_le_expectation falling all_pos own other first second (Nat.cast_le.mpr le)
  refine ⟨divide_of_lt, v, w, first, second, larger,
    fun same => le_antisymm (smaller same.le) (larger same.ge), fun fits => ?_⟩
  have portions : Portions raw (tally prizes) := portions_expectations positive enough fits
  refine ⟨_, _, by rw [getElem?_largestRemainder, first, Option.map_some],
    by rw [getElem?_largestRemainder, second, Option.map_some], fun less => ?_, ?_⟩
  · exact rounded_le_rounded second first less (portions.nonneg w (List.mem_of_getElem? second))
      (portions.le_cap v (List.mem_of_getElem? first)) _
  · rintro rfl
    have units := topUp_le_succ (missing raw (tally prizes)) raw.length
    have one_way := units (rankOf raw i) (rankOf raw j)
    have other_way := units (rankOf raw j) (rankOf raw i)
    omega

/-- The second one of three stacks is larger than the third. -/
theorem larger_stack_fares_no_worse_secondOfThree :
    ((∀ n ∈ [2, 5, 3], 0 < n) ∧ [70, 30].Pairwise (· ≥ ·) ∧ [70, 30].length ≤ [2, 5, 3].length ∧
      [2, 5, 3][1]? = some 5 ∧ [2, 5, 3][2]? = some 3 ∧ ∀ p ∈ [70, 30], p ≤ cap) ∧
    let raw : List ℚ := expectations ([70, 30].map Nat.cast) ([2, 5, 3].map Nat.cast)
    ∃ v w m n, raw[1]? = some v ∧ raw[2]? = some w ∧ w ≤ v ∧
      (largestRemainder raw 100)[1]? = some m ∧ (largestRemainder raw 100)[2]? = some n ∧
      (w < v → n ≤ m) := by
  have positive : ∀ n ∈ [2, 5, 3], 0 < n := by decide
  have down : [70, 30].Pairwise (· ≥ ·) := by decide
  have enough : [70, 30].length ≤ [2, 5, 3].length := by decide
  have here : [2, 5, 3][1]? = some 5 := rfl
  have there : [2, 5, 3][2]? = some 3 := rfl
  have fits : ∀ p ∈ [70, 30], p ≤ cap := by decide
  obtain ⟨-, v, w, first, second, larger, -, rounded⟩ :=
    larger_stack_fares_no_worse [2, 5, 3] [70, 30] 1 2 5 3 positive down enough here there
  obtain ⟨m, n, paid, paid_other, no_less, -⟩ := rounded fits
  exact ⟨⟨positive, down, enough, here, there, fits⟩, v, w, m, n, first, second, larger (by decide),
    paid, paid_other, no_less⟩

end Icm

end CardRoom
