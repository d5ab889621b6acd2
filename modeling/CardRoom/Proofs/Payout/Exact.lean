import Mathlib
import CardRoom.Chips
import CardRoom.Proofs.Payout.Division
import CardRoom.Proofs.Payout.Rounding

/-! # Exact payouts

Exact fractions that make up a whole total are rounded to whole numbers that make it up as well.
Fewer units are missing than there are numbers, and they go to numbers from which rounding has
taken something off, so that no payout passes a whole bound of what is expected.
-/

namespace CardRoom

/-- Exact fractions, rounded down within the cap. -/
instance exactFraction : Fractional ℚ where
  whole v := min ⌊v⌋.toNat cap
  fraction v := v - ⌊v⌋
  atLeast a b := decide (b ≤ a)

theorem fraction_nonneg (v : ℚ) : 0 ≤ Fractional.fraction v := sub_nonneg.mpr (Int.floor_le v)

theorem fraction_lt_one (v : ℚ) : Fractional.fraction v < 1 :=
  sub_left_lt_of_lt_add (Int.lt_floor_add_one v)

theorem whole_eq_floor {v : ℚ} (nonneg : 0 ≤ v) (fits : v ≤ cap) :
    ((Fractional.whole v : Nat) : Int) = ⌊v⌋ := by
  have above : 0 ≤ ⌊v⌋ := Int.floor_nonneg.mpr nonneg
  have below : ⌊v⌋ ≤ cap := by
    have := Int.floor_le_floor fits
    simpa using this
  show ((min ⌊v⌋.toNat cap : Nat) : Int) = ⌊v⌋
  omega

theorem whole_add_fraction {v : ℚ} (nonneg : 0 ≤ v) (fits : v ≤ cap) :
    ((Fractional.whole v : Nat) : ℚ) + Fractional.fraction v = v := by
  have whole : ((Fractional.whole v : Nat) : ℚ) = (⌊v⌋ : ℚ) := by
    exact_mod_cast whole_eq_floor nonneg fits
  rw [whole]
  exact add_sub_cancel _ _

theorem whole_le_whole {v w : ℚ} (le : v ≤ w) : Fractional.whole v ≤ Fractional.whole w := by
  have floors := Int.toNat_le_toNat (Int.floor_le_floor le)
  exact min_le_min_right cap floors

/-- Between numbers with one whole part the fractional parts make the difference. -/
theorem fraction_sub_fraction {v w : ℚ} (le : v ≤ w) (nonneg : 0 ≤ v) (fits : w ≤ cap)
    (same : Fractional.whole v = Fractional.whole w) :
    Fractional.fraction w - Fractional.fraction v = w - v := by
  have first := whole_add_fraction nonneg (le.trans fits)
  have second := whole_add_fraction (nonneg.trans le) fits
  rw [same] at first
  linarith

theorem atLeast_iff {a b : ℚ} : Fractional.atLeast a b = true ↔ b ≤ a := decide_eq_true_iff

theorem atLeast_trans (a b c : ℚ) (first : Fractional.atLeast a b = true)
    (second : Fractional.atLeast b c = true) : Fractional.atLeast a c = true :=
  atLeast_iff.mpr ((atLeast_iff.mp second).trans (atLeast_iff.mp first))

theorem atLeast_total (a b : ℚ) : (Fractional.atLeast a b || Fractional.atLeast b a) = true := by
  rw [Bool.or_eq_true, atLeast_iff, atLeast_iff]
  exact le_total b a

theorem rankOf_lt_rankOf_iff {raw : List ℚ} {i j : Nat} {v w : ℚ} (here : raw[i]? = some v)
    (there : raw[j]? = some w) : rankOf raw i < rankOf raw j ↔
      Fractional.fraction w ≤ Fractional.fraction v ∧
        (Fractional.fraction v ≤ Fractional.fraction w → i < j) := by
  rw [rankOf_lt_iff atLeast_trans atLeast_total here there, atLeast_iff, atLeast_iff]

/-- In a list of fractions that goes down and adds up to `m`, the first `m` are above zero. -/
theorem getElem_pos_of_lt_sum {fractions : List ℚ} (down : fractions.Pairwise (· ≥ ·))
    (proper : ∀ v ∈ fractions, v < 1) {m r : Nat} (sum : fractions.sum = m) (first : r < m)
    (inside : r < fractions.length) : 0 < fractions[r] := by
  by_contra none_left
  have earlier : (fractions.take r).sum ≤ r := by
    have bound := List.sum_le_card_nsmul (fractions.take r) 1
      fun v member => (proper v (List.mem_of_mem_take member)).le
    rwa [List.length_take, min_eq_left inside.le, nsmul_one] at bound
  have later : (fractions.drop r).sum ≤ 0 := by
    have bound := List.sum_le_card_nsmul (fractions.drop r) 0 fun v member => ?_
    · simpa using bound
    · rw [List.drop_eq_getElem_cons inside] at member
      have ordered : (fractions.drop r).Pairwise (· ≥ ·) := down.drop
      rw [List.drop_eq_getElem_cons inside] at ordered
      rcases List.mem_cons.mp member with rfl | rest
      · exact not_lt.mp none_left
      · exact (List.rel_of_pairwise_cons ordered rest).le.trans (not_lt.mp none_left)
  have parts := List.sum_take_add_sum_drop fractions r
  have reached : (m : ℚ) ≤ r := by
    rw [← sum, ← parts]
    linarith
  exact absurd first (not_lt.mpr (by exact_mod_cast reached))

/-- Numbers, none above the cap, that make up a total. -/
structure Portions (raw : List ℚ) (total : Nat) : Prop where
  nonneg : ∀ v ∈ raw, 0 ≤ v
  le_cap : ∀ v ∈ raw, v ≤ cap
  sum : raw.sum = total

namespace Portions

variable {raw : List ℚ} {total : Nat} (portions : Portions raw total)
include portions

theorem tally_whole_add_fractions :
    ((tally (raw.map Fractional.whole) : Nat) : ℚ) + (raw.map Fractional.fraction).sum = total := by
  have parts : ∀ v ∈ raw,
      ((Fractional.whole v : Nat) : ℚ) + Fractional.fraction v = v := fun v member =>
    whole_add_fraction (portions.nonneg v member) (portions.le_cap v member)
  rw [tally_eq_sum, Nat.cast_list_sum, List.map_map, ← List.sum_map_add]
  exact (congrArg List.sum ((List.map_congr_left parts).trans raw.map_id')).trans portions.sum

theorem tally_whole_le : tally (raw.map Fractional.whole) ≤ total := by
  have left : 0 ≤ (raw.map Fractional.fraction).sum := by
    apply List.sum_nonneg
    intro f member
    obtain ⟨v, -, rfl⟩ := List.mem_map.mp member
    exact fraction_nonneg v
  have parts := portions.tally_whole_add_fractions
  have le : ((tally (raw.map Fractional.whole) : Nat) : ℚ) ≤ total := by linarith
  exact_mod_cast le

theorem missing_eq : ((missing raw total : Nat) : ℚ) = (raw.map Fractional.fraction).sum := by
  have parts := portions.tally_whole_add_fractions
  rw [missing, Nat.cast_sub portions.tally_whole_le]
  linarith

/-- Rounding takes off less than one from each number. -/
theorem missing_lt (nonempty : raw ≠ []) : missing raw total < raw.length := by
  have less := List.sum_lt_sum_of_ne_nil nonempty Fractional.fraction (fun _ => (1 : ℚ))
    fun v _ => fraction_lt_one v
  rw [← portions.missing_eq, List.map_const', List.sum_replicate, nsmul_one] at less
  exact_mod_cast less

theorem topUp_eq (nonempty : raw ≠ []) (rank : Nat) :
    topUp (missing raw total) raw.length rank = if rank < missing raw total then 1 else 0 := by
  have few := portions.missing_lt nonempty
  rw [topUp, Nat.div_eq_of_lt few, Nat.mod_eq_of_lt few, Nat.zero_add]

theorem getElem?_paid (nonempty : raw ≠ []) {i : Nat} {v : ℚ} (here : raw[i]? = some v) :
    (largestRemainder raw total)[i]? =
      some (Fractional.whole v + if rankOf raw i < missing raw total then 1 else 0) := by
  rw [getElem?_largestRemainder, here, Option.map_some, portions.topUp_eq nonempty]

theorem exists_of_paid (nonempty : raw ≠ []) {i n : Nat}
    (paid : (largestRemainder raw total)[i]? = some n) :
    ∃ v, raw[i]? = some v ∧
      n = Fractional.whole v + if rankOf raw i < missing raw total then 1 else 0 := by
  cases here : raw[i]? with
  | none =>
      rw [getElem?_largestRemainder, here] at paid
      cases paid
  | some v =>
      rw [portions.getElem?_paid nonempty here] at paid
      exact ⟨v, rfl, (Option.some.inj paid).symm⟩

/-- A missing unit goes to a number from which rounding has taken something off. -/
theorem fraction_pos {i : Nat} {v : ℚ} (here : raw[i]? = some v)
    (first : rankOf raw i < missing raw total) : 0 < Fractional.fraction v := by
  have same : ((ranked raw).map Prod.fst).Perm (raw.map Fractional.fraction) := by
    have fractions := (ranked_perm raw).map Prod.fst
    rwa [List.zipIdx_map_fst] at fractions
  have down : ((ranked raw).map Prod.fst).Pairwise (· ≥ ·) :=
    List.pairwise_map.mpr ((ranked_pairwise atLeast_trans atLeast_total raw).imp atLeast_iff.mp)
  have proper : ∀ f ∈ (ranked raw).map Prod.fst, f < 1 := by
    intro f member
    obtain ⟨w, -, rfl⟩ := List.mem_map.mp (same.mem_iff.mp member)
    exact fraction_lt_one w
  have sum : ((ranked raw).map Prod.fst).sum = (missing raw total : Nat) := by
    rw [same.sum_eq, portions.missing_eq]
  obtain ⟨inside, entry⟩ := List.getElem?_eq_some_iff.mp (ranked_rankOf here)
  have positive := getElem_pos_of_lt_sum down proper sum first (by simpa using inside)
  rwa [List.getElem_map, entry] at positive

/-- A payout is what is expected rounded down, or one more if there is something to round. -/
theorem getElem?_rounded (nonempty : raw ≠ []) {i : Nat} {v : ℚ} (here : raw[i]? = some v) :
    ∃ n, (largestRemainder raw total)[i]? = some n ∧
      ((n : Int) = ⌊v⌋ ∨ (n : Int) = ⌊v⌋ + 1 ∧ (⌊v⌋ : ℚ) < v) := by
  have member := List.mem_of_getElem? here
  have whole := whole_eq_floor (portions.nonneg v member) (portions.le_cap v member)
  refine ⟨_, portions.getElem?_paid nonempty here, ?_⟩
  split
  · rename_i first
    refine .inr ⟨by rw [Nat.cast_add, whole, Nat.cast_one], ?_⟩
    exact sub_pos.mp (portions.fraction_pos here first)
  · exact .inl (by rw [Nat.add_zero, whole])

theorem rounded_within (nonempty : raw ≠ []) {i : Nat} {v : ℚ} (here : raw[i]? = some v)
    {low high : Nat} (bounds : low ≤ v ∧ v ≤ high) :
    ∃ n, (largestRemainder raw total)[i]? = some n ∧ ((n : Int) = ⌊v⌋ ∨ (n : Int) = ⌊v⌋ + 1) ∧
      low ≤ n ∧ n ≤ high := by
  obtain ⟨n, paid, rounds⟩ := portions.getElem?_rounded nonempty here
  have above : (low : Int) ≤ ⌊v⌋ := Int.le_floor.mpr (by exact_mod_cast bounds.1)
  refine ⟨n, paid, rounds.imp_right And.left, ?_⟩
  rcases rounds with down | ⟨up, something⟩
  · have below : (⌊v⌋ : ℚ) ≤ high := (Int.floor_le v).trans bounds.2
    have : ⌊v⌋ ≤ (high : Int) := by exact_mod_cast below
    omega
  · have below : (⌊v⌋ : ℚ) < high := something.trans_le bounds.2
    have : ⌊v⌋ < (high : Int) := by exact_mod_cast below
    omega

theorem tally_rounded (nonempty : raw ≠ []) : tally (largestRemainder raw total) = total := by
  rw [tally_largestRemainder nonempty, missing]
  have := portions.tally_whole_le
  omega

end Portions

namespace Icm

/-- The prizes, with a prize of nothing for each place without one. -/
def padded (prizes : List Nat) (players : Nat) : List Nat :=
  prizes ++ List.replicate (players - prizes.length) 0

variable {holdings prizes : List Nat}

theorem exists_bounds (some_stack : holdings ≠ []) (enough : prizes.length ≤ holdings.length) :
    ∃ low high, (padded prizes holdings.length).min? = some low ∧
      (padded prizes holdings.length).max? = some high ∧
      ∀ p ∈ padded prizes holdings.length, low ≤ p ∧ p ≤ high := by
  have length : (padded prizes holdings.length).length = holdings.length := by
    rw [padded, List.length_append, List.length_replicate]
    omega
  have some_prize : padded prizes holdings.length ≠ [] := by
    intro empty
    rw [empty] at length
    exact some_stack (List.length_eq_zero_iff.mp length.symm)
  obtain ⟨low, lowest⟩ := Option.ne_none_iff_exists'.mp (mt List.min?_eq_none_iff.mp some_prize)
  obtain ⟨high, highest⟩ := Option.ne_none_iff_exists'.mp (mt List.max?_eq_none_iff.mp some_prize)
  exact ⟨low, high, lowest, highest, fun p member =>
    ⟨(List.min?_eq_some_iff.mp lowest).2 p member, (List.max?_eq_some_iff.mp highest).2 p member⟩⟩

theorem cast_pos (positive : ∀ s ∈ holdings, 0 < s) :
    ∀ s ∈ holdings.map (Nat.cast : Nat → ℚ), 0 < s := by
  intro s member
  obtain ⟨n, listed, rfl⟩ := List.mem_map.mp member
  exact Nat.cast_pos.mpr (positive n listed)

theorem divided_of_bounds (positive : ∀ s ∈ holdings, 0 < s)
    (enough : prizes.length ≤ holdings.length) {low high : Nat}
    (bounds : ∀ p ∈ padded prizes holdings.length, low ≤ p ∧ p ≤ high) :
    Divided low high (tally prizes : Nat) holdings.length 1
      (expectations (prizes.map Nat.cast) (holdings.map Nat.cast)) := by
  have pool : (prizes.map (Nat.cast : Nat → ℚ)).sum = (tally prizes : Nat) := by
    rw [tally_eq_sum, Nat.cast_list_sum]
  rw [← pool, ← List.length_map (Nat.cast : Nat → ℚ)]
  apply divided_expectations
  · exact cast_pos positive
  · simpa using enough
  · intro p member
    obtain ⟨n, listed, rfl⟩ := List.mem_map.mp member
    exact_mod_cast bounds n (List.mem_append_left _ listed)
  · intro spare
    rw [List.length_map, List.length_map] at spare
    have nothing : 0 ∈ padded prizes holdings.length :=
      List.mem_append_right _ (List.mem_replicate.mpr ⟨by omega, rfl⟩)
    exact_mod_cast bounds 0 nothing

theorem portions_expectations (positive : ∀ s ∈ holdings, 0 < s)
    (enough : prizes.length ≤ holdings.length) (fits : ∀ p ∈ prizes, p ≤ cap) :
    Portions (expectations (prizes.map Nat.cast) (holdings.map Nat.cast)) (tally prizes) := by
  have bounds : ∀ p ∈ padded prizes holdings.length, 0 ≤ p ∧ p ≤ cap := by
    intro p member
    rcases List.mem_append.mp member with listed | added
    · exact ⟨Nat.zero_le p, fits p listed⟩
    · obtain rfl := List.eq_of_mem_replicate added
      exact ⟨le_rfl, Nat.zero_le cap⟩
  have divided := divided_of_bounds positive enough bounds
  exact
    { nonneg := fun v member => by simpa using (divided.within v member).1
      le_cap := fun v member => by simpa using (divided.within v member).2
      sum := by simpa using divided.sum }

/-- Over exact fractions the expected payouts make up the prizes, each between the smallest and
the largest prize when places without one count too. So rounding down keeps within the prizes, fewer
units are missing than there are players, and the payouts, each rounded down or one more, are within
the same bounds and make up the prizes. -/
theorem payouts_make_up_prizes (holdings prizes : List Nat) (some_stack : holdings ≠ [])
    (positive : ∀ s ∈ holdings, 0 < s) (enough : prizes.length ≤ holdings.length)
    (fits : tally prizes ≤ cap) :
    let raw : List ℚ := expectations (prizes.map Nat.cast) (holdings.map Nat.cast)
    let paid := largestRemainder raw (tally prizes)
    (holdings.length < 32 → divide holdings prizes = raw) ∧
    raw.length = holdings.length ∧ raw.sum = (tally prizes : Nat) ∧
    tally (raw.map Fractional.whole) ≤ tally prizes ∧
    tally prizes - tally (raw.map Fractional.whole) < holdings.length ∧
    paid.length = holdings.length ∧ tally paid = tally prizes ∧
    ∃ low high, (padded prizes holdings.length).min? = some low ∧
      (padded prizes holdings.length).max? = some high ∧
      ∀ (i : Nat) (v : ℚ), raw[i]? = some v → ((low : ℚ) ≤ v ∧ v ≤ (high : ℚ)) ∧
        ∃ n, paid[i]? = some n ∧ ((n : Int) = ⌊v⌋ ∨ (n : Int) = ⌊v⌋ + 1) ∧ low ≤ n ∧ n ≤ high := by
  intro raw paid
  obtain ⟨low, high, lowest, highest, bounds⟩ := exists_bounds some_stack enough
  have divided : Divided low high (tally prizes : Nat) holdings.length 1 raw :=
    divided_of_bounds positive enough bounds
  have within : ∀ v ∈ raw, (low : ℚ) ≤ v ∧ v ≤ (high : ℚ) := by
    intro v member
    simpa using divided.within v member
  have nonempty : raw ≠ [] := by
    apply List.ne_nil_of_length_pos
    rw [divided.length]
    exact List.length_pos_of_ne_nil some_stack
  have portions : Portions raw (tally prizes) :=
    portions_expectations positive enough fun p member => (le_tally member).trans fits
  have few := portions.missing_lt nonempty
  rw [divided.length] at few
  refine ⟨divide_of_lt, divided.length, portions.sum, portions.tally_whole_le, few,
    (length_largestRemainder _ _).trans divided.length, portions.tally_rounded nonempty,
    low, high, lowest, highest, fun i v here => ?_⟩
  have bounded := within v (List.mem_of_getElem? here)
  exact ⟨bounded, portions.rounded_within nonempty here bounded⟩

/-- Three stacks and two prizes, the smaller one first. -/
theorem payouts_make_up_prizes_twoOfThree :
    ([5, 3, 2] ≠ ([] : List Nat) ∧ (∀ s ∈ [5, 3, 2], 0 < s) ∧ [100, 250].length ≤ [5, 3, 2].length ∧
      tally [100, 250] ≤ cap) ∧
    (expectations ([100, 250].map Nat.cast) ([5, 3, 2].map Nat.cast) : List ℚ).sum = (350 : Nat) ∧
    tally (largestRemainder
      (expectations ([100, 250].map Nat.cast) ([5, 3, 2].map Nat.cast) : List ℚ) 350) = 350 := by
  have some_stack : [5, 3, 2] ≠ ([] : List Nat) := by decide
  have positive : ∀ s ∈ [5, 3, 2], 0 < s := by decide
  have enough : [100, 250].length ≤ [5, 3, 2].length := by decide
  have fits : tally [100, 250] ≤ cap := by decide
  obtain ⟨-, -, sum, -, -, -, paid, -⟩ :=
    payouts_make_up_prizes [5, 3, 2] [100, 250] some_stack positive enough fits
  exact ⟨⟨some_stack, positive, enough, fits⟩, sum, paid⟩

end Icm

end CardRoom
