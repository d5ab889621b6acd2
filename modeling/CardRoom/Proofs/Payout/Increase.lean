import Mathlib
import CardRoom.Proofs.Payout.Exact
import CardRoom.Proofs.Payout.Prospect

/-! # More chips of one's own

When one stack grows and no other changes, its player expects no less and everybody else no
more, as long as the prizes go down. Rounding does not turn this round. If the payout of the one
who expects more fell, someone who expects no more would get a unit that he did not get before, and
would have to come after him in the order of the fractional parts before and ahead of him now.
-/

namespace CardRoom

/-- A sum with one unit or none falls only by losing the unit. -/
theorem unit_lost {m n : Nat} {had has : Prop} [Decidable had] [Decidable has] (le : m ≤ n)
    (falls : n + (if has then 1 else 0) < m + if had then 1 else 0) : m = n ∧ had ∧ ¬ has := by
  by_cases before : had <;> by_cases now : has <;> simp only [before, now, if_true, if_false] at falls
  · omega
  · exact ⟨by omega, before, now⟩
  · omega
  · omega

namespace Portions

variable {raw grown : List ℚ} {total i : Nat} {v w : ℚ}

/-- When one number grows and no other does, it is not rounded to less than before. -/
theorem rounded_le_of_grown (before : Portions raw total) (after : Portions grown total)
    (length : grown.length = raw.length) (here : raw[i]? = some v) (there : grown[i]? = some w)
    (grows : v ≤ w)
    (others : ∀ j x y, j ≠ i → raw[j]? = some x → grown[j]? = some y → y ≤ x) :
    ∃ m n, (largestRemainder raw total)[i]? = some m ∧
      (largestRemainder grown total)[i]? = some n ∧ m ≤ n := by
  have some_raw : raw ≠ [] := List.ne_nil_of_mem (List.mem_of_getElem? here)
  have some_grown : grown ≠ [] := List.ne_nil_of_mem (List.mem_of_getElem? there)
  have paid := before.getElem?_paid some_raw here
  have paid_now := after.getElem?_paid some_grown there
  refine ⟨_, _, paid, paid_now, ?_⟩
  by_contra not_le
  have falls := Nat.not_le.mp not_le
  -- The payouts make up the same total, so somebody else gets more than before.
  obtain ⟨j, m, n, less, more, gains⟩ := exists_lt_of_tally_eq
    (by rw [length_largestRemainder, length_largestRemainder, length])
    ((before.tally_rounded some_raw).trans (after.tally_rounded some_grown).symm)
    paid paid_now falls
  obtain ⟨x, other, rfl⟩ := before.exists_of_paid some_raw less
  obtain ⟨y, other_now, rfl⟩ := after.exists_of_paid some_grown more
  have apart : j ≠ i := by
    rintro rfl
    obtain rfl : v = x := Option.some.inj (here.symm.trans other)
    obtain rfl : w = y := Option.some.inj (there.symm.trans other_now)
    omega
  have no_more := others j x y apart other other_now
  obtain ⟨own_same, had_unit, has_none⟩ := unit_lost (whole_le_whole grows) falls
  obtain ⟨other_same, has_unit, had_none⟩ := unit_lost (whole_le_whole no_more) gains
  have rises := fraction_sub_fraction grows (before.nonneg v (List.mem_of_getElem? here))
    (after.le_cap w (List.mem_of_getElem? there)) own_same
  have drops := fraction_sub_fraction no_more
    (after.nonneg y (List.mem_of_getElem? other_now))
    (before.le_cap x (List.mem_of_getElem? other)) other_same
  obtain ⟨ahead, first⟩ := (rankOf_lt_rankOf_iff here other).mp (by omega)
  obtain ⟨behind, second⟩ := (rankOf_lt_rankOf_iff other_now there).mp (by omega)
  have earlier : i < j := first (by linarith)
  have later : j < i := second (by linarith)
  omega

end Portions

namespace Icm

/-! ## Expected payouts when one stack grows -/

section

variable {prizes holdings : List ℚ} {i j : Nat} {own bump : ℚ}

theorem getElem?_grown (here : holdings[i]? = some own) :
    (holdings.modify i (· + bump))[i]? = some (own + bump) := by
  rw [List.getElem?_modify_eq, here]
  rfl

theorem expectation_le_grown (falling : Falling prizes) (positive : ∀ s ∈ holdings, 0 < s)
    (bump_nonneg : 0 ≤ bump) (inside : i < holdings.length) :
    ∃ v w, (expectations prizes holdings)[i]? = some v ∧
      (expectations prizes (holdings.modify i (· + bump)))[i]? = some w ∧ v ≤ w := by
  have here := List.getElem?_eq_getElem inside
  have own_pos := positive _ (List.getElem_mem inside)
  refine ⟨_, _, by rw [getElem?_expectations, here, Option.map_some],
    by rw [getElem?_expectations, getElem?_grown here, List.eraseIdx_modify_of_eq,
      Option.map_some], ?_⟩
  exact prospect_le_of_more falling own_pos (le_add_of_nonneg_right bump_nonneg)
    (positive_eraseIdx positive i)

theorem grown_expectation_le (falling : Falling prizes) (positive : ∀ s ∈ holdings, 0 < s)
    (bump_nonneg : 0 ≤ bump) (inside : i < holdings.length) (other : j < holdings.length)
    (apart : j ≠ i) :
    ∃ v w, (expectations prizes holdings)[j]? = some v ∧
      (expectations prizes (holdings.modify i (· + bump)))[j]? = some w ∧ w ≤ v := by
  have here := List.getElem?_eq_getElem inside
  have there := List.getElem?_eq_getElem other
  have there_now : (holdings.modify i (· + bump))[j]? = some holdings[j] := by
    rw [List.getElem?_modify_ne _ _ apart.symm, there]
  refine ⟨_, _, by rw [getElem?_expectations, there, Option.map_some],
    by rw [getElem?_expectations, there_now, Option.map_some], ?_⟩
  rw [coe_eraseIdx_of_ne here there apart, coe_eraseIdx_of_ne (getElem?_grown here) there_now apart,
    List.eraseIdx_modify_of_eq]
  exact prospect_le_of_less_rival falling (positive _ (List.getElem_mem other))
    (positive _ (List.getElem_mem inside)) (le_add_of_nonneg_right bump_nonneg)
    (positive_erase (positive_eraseIdx positive i) _)

end

theorem cast_modify (holdings : List Nat) (i bump : Nat) :
    (holdings.modify i (· + bump)).map (Nat.cast : Nat → ℚ) =
      (holdings.map Nat.cast).modify i (· + (bump : ℚ)) := by
  apply List.ext_getElem?
  intro k
  rw [List.getElem?_map, List.getElem?_modify, List.getElem?_modify, List.getElem?_map,
    Option.map_eq_map, Option.map_eq_map, Option.map_map, Option.map_map]
  refine congrArg (Option.map · _) (funext fun s => ?_)
  by_cases same : i = k <;> simp [same]

theorem positive_modify {holdings : List Nat} (positive : ∀ s ∈ holdings, 0 < s) (i bump : Nat) :
    ∀ s ∈ holdings.modify i (· + bump), 0 < s := by
  intro s member
  obtain ⟨k, found⟩ := List.mem_iff_getElem?.mp member
  rw [List.getElem?_modify] at found
  obtain ⟨n, listed, rfl⟩ := Option.map_eq_some_iff.mp found
  have above := positive n (List.mem_of_getElem? listed)
  split
  · exact Nat.add_pos_left above bump
  · exact above

/-- Over exact fractions and with prizes that go down, a player whose stack grows expects no less,
everybody else expects no more, and the player's payout does not fall. -/
theorem growth_never_hurts (holdings prizes : List Nat) (i bump : Nat)
    (positive : ∀ s ∈ holdings, 0 < s) (down : prizes.Pairwise (· ≥ ·))
    (enough : prizes.length ≤ holdings.length) (inside : i < holdings.length) :
    let grown := holdings.modify i (· + bump)
    let before : List ℚ := expectations (prizes.map Nat.cast) (holdings.map Nat.cast)
    let after : List ℚ := expectations (prizes.map Nat.cast) (grown.map Nat.cast)
    (holdings.length < 32 → divide holdings prizes = before ∧ divide grown prizes = after) ∧
    (∃ v w, before[i]? = some v ∧ after[i]? = some w ∧ v ≤ w) ∧
    (∀ j, j < holdings.length → j ≠ i → ∃ v w, before[j]? = some v ∧ after[j]? = some w ∧ w ≤ v) ∧
    ((∀ p ∈ prizes, p ≤ cap) →
      ∃ m n, (largestRemainder before (tally prizes))[i]? = some m ∧
        (largestRemainder after (tally prizes))[i]? = some n ∧ m ≤ n) := by
  intro grown before after
  have falling := Falling.cast down
  have all_pos := cast_pos positive
  have bump_nonneg : (0 : ℚ) ≤ bump := Nat.cast_nonneg bump
  have same_length : grown.length = holdings.length := List.length_modify _ _ _
  have raised : after = expectations (prizes.map Nat.cast)
      ((holdings.map Nat.cast).modify i (· + (bump : ℚ))) := by
    rw [← cast_modify]
  have own : ∃ v w, before[i]? = some v ∧ after[i]? = some w ∧ v ≤ w := by
    rw [raised]
    exact expectation_le_grown falling all_pos bump_nonneg (by simpa using inside)
  have others : ∀ j, j < holdings.length → j ≠ i →
      ∃ v w, before[j]? = some v ∧ after[j]? = some w ∧ w ≤ v := by
    intro j other apart
    rw [raised]
    exact grown_expectation_le falling all_pos bump_nonneg (by simpa using inside)
      (by simpa using other) apart
  refine ⟨fun few => ⟨divide_of_lt few, divide_of_lt (same_length ▸ few)⟩, own, others,
    fun fits => ?_⟩
  obtain ⟨v, w, here, there, grows⟩ := own
  have first : Portions before (tally prizes) := portions_expectations positive enough fits
  have second : Portions after (tally prizes) :=
    portions_expectations (positive_modify positive i bump) (same_length ▸ enough) fits
  refine first.rounded_le_of_grown second (by simp [before, after, grown]) here there grows ?_
  intro j x y apart less more
  have other : j < holdings.length := by
    simpa [before] using (List.getElem?_eq_some_iff.mp less).1
  obtain ⟨x', y', less', more', falls⟩ := others j other apart
  obtain rfl : x = x' := Option.some.inj (less.symm.trans less')
  obtain rfl : y = y' := Option.some.inj (more.symm.trans more')
  exact falls

/-- The middle one of three stacks grows by one chip. -/
theorem growth_never_hurts_middleOfThree :
    ((∀ s ∈ [5, 3, 2], 0 < s) ∧ [70, 30].Pairwise (· ≥ ·) ∧ [70, 30].length ≤ [5, 3, 2].length ∧
      1 < [5, 3, 2].length ∧ ∀ p ∈ [70, 30], p ≤ cap) ∧
    ∃ m n,
      (largestRemainder (expectations ([70, 30].map Nat.cast) ([5, 3, 2].map Nat.cast) : List ℚ)
        100)[1]? = some m ∧
      (largestRemainder (expectations ([70, 30].map Nat.cast) ([5, 4, 2].map Nat.cast) : List ℚ)
        100)[1]? = some n ∧ m ≤ n := by
  have positive : ∀ s ∈ [5, 3, 2], 0 < s := by decide
  have down : [70, 30].Pairwise (· ≥ ·) := by decide
  have enough : [70, 30].length ≤ [5, 3, 2].length := by decide
  have inside : 1 < [5, 3, 2].length := by decide
  have fits : ∀ p ∈ [70, 30], p ≤ cap := by decide
  obtain ⟨-, -, -, payout⟩ := growth_never_hurts [5, 3, 2] [70, 30] 1 1 positive down enough inside
  exact ⟨⟨positive, down, enough, inside, fits⟩, payout fits⟩

end Icm

end CardRoom
