import Mathlib
import CardRoom.Chips
import CardRoom.Payout.Ladder
import CardRoom.Proofs.Double.Summation
import CardRoom.Proofs.Payout.Dealing
import CardRoom.Proofs.Tallies

/-! # What a ladder pays

A ladder is accepted when its shares are proper doubles that do not add up to more than the
tolerance allows. A full ladder then pays the whole pool, unless the portions exceed it, for the
excess is not taken back. Small pools cannot be exceeded: with a few places this takes nearly a
thousand million chips, as many as make a whole chip out of the tolerance. What a full ladder pays
is told for portions that fit together into 64 bits.
-/

namespace CardRoom.Ladder

open Binary64

/-- A ladder that no check refuses. -/
structure Accepted (shares : List Float) : Prop where
  nonempty : shares ≠ []
  finite : ∀ share ∈ shares, isFinite share = true
  nonneg : ∀ share ∈ shares, ¬ share < 0.0
  within : ¬ 1.0 + tolerance < shareSum shares

/-- What an accepted ladder pays. -/
def paid (pool : Nat) (shares : List Float) : List Nat :=
  if isFull shares then dealOut pool (shares.map (portion pool)) else shares.map (portion pool)

theorem isInvalid_eq_false_iff (share : Float) :
    isInvalid share = false ↔ isFinite share = true ∧ ¬ share < 0.0 := by
  simp [isInvalid]

theorem find?_isInvalid_eq_none_iff (shares : List Float) :
    (shares.zipIdx.find? fun (share, _) => isInvalid share) = none ↔
      ∀ share ∈ shares, isFinite share = true ∧ ¬ share < 0.0 := by
  simp only [List.find?_eq_none, Bool.not_eq_true, isInvalid_eq_false_iff]
  constructor
  · intro valid share member
    obtain ⟨place, here⟩ := List.mem_iff_getElem?.mp member
    exact valid (share, place) (List.mem_zipIdx_iff_getElem?.mpr here)
  · intro valid entry member
    exact valid entry.1 (List.mem_of_getElem? (List.mem_zipIdx_iff_getElem?.mp member))

theorem prizes_eq_ok_iff {pool : Nat} {shares : List Float} {given : List Nat} :
    prizes pool shares = .ok given ↔ Accepted shares ∧ paid pool shares = given := by
  unfold prizes
  constructor
  · intro result
    split at result
    · cases result
    next nonempty =>
      split at result
      · cases result
      next valid =>
        split at result
        · cases result
        next within =>
          have proper := (find?_isInvalid_eq_none_iff shares).mp valid
          have accepted : Accepted shares :=
            ⟨by simpa using nonempty, fun share member => (proper share member).1,
              fun share member => (proper share member).2, within⟩
          exact ⟨accepted, Except.ok.inj result⟩
  · rintro ⟨accepted, rfl⟩
    have valid := (find?_isInvalid_eq_none_iff shares).mpr fun share member =>
      ⟨accepted.finite share member, accepted.nonneg share member⟩
    rw [if_neg (by simpa using accepted.nonempty), valid]
    dsimp only
    rw [if_neg accepted.within]
    rfl

/-! ## Dealing out -/

theorem tally_dealOut (pool : Nat) {portions : List Nat} (nonempty : portions ≠ []) :
    tally (dealOut pool portions) = max pool (tally portions) := by
  rw [dealOut, tally_mapIdx_add, tally_topUp _ (List.length_pos_of_ne_nil nonempty)]
  omega

theorem tally_paid {pool : Nat} {shares : List Float} (nonempty : shares ≠ []) :
    tally (paid pool shares) =
      if isFull shares then max pool (tally (shares.map (portion pool)))
      else tally (shares.map (portion pool)) := by
  unfold paid
  split
  · exact tally_dealOut pool (by simpa using nonempty)
  · rfl

theorem pairwise_dealOut (pool : Nat) {portions : List Nat}
    (falls : portions.Pairwise (· ≥ ·)) : (dealOut pool portions).Pairwise (· ≥ ·) := by
  rw [List.pairwise_iff_getElem] at falls ⊢
  intro i j first second earlier
  simp only [dealOut, List.length_mapIdx] at first second
  have portions_fall := falls i j first second earlier
  have top_ups_fall := topUp_anti (pool - tally portions) portions.length earlier.le
  simp only [dealOut, List.getElem_mapIdx]
  omega

/-! ## The order of the places -/

/-- The portion by the exact product of the pool and the number that the share stands for. -/
def exactPortion (pool : Nat) (share : Float) : Nat := min ⌊(pool : ℚ) * value share⌋₊ cap

section

variable {shares : List Float} (accepted : Accepted shares)
include accepted

theorem Accepted.stands {share : Float} (member : share ∈ shares) : Stands share (value share) :=
  stands_of_not_lt (accepted.finite share member) (accepted.nonneg share member)

theorem Accepted.value_nonneg {share : Float} (member : share ∈ shares) : 0 ≤ value share :=
  Carries.nonneg (accepted.stands member)

theorem Accepted.value_le {a b : Float} (first : a ∈ shares) (second : b ∈ shares) (le : b ≤ a) :
    value b ≤ value a :=
  ((accepted.stands second).le_iff (accepted.stands first)).mp le

/-- A portion is two roundings away from the exact one. -/
theorem Accepted.portion_eq {pool : Nat} (fits : pool ≤ cap) {share : Float}
    (member : share ∈ shares) :
    portion pool share = min ⌊nearest (nearest pool * value share)⌋₊ cap :=
  ((stands_ofNat fits).mul (accepted.stands member)).whole

theorem Accepted.portion_le {pool : Nat} (fits : pool ≤ cap) {a b : Float} (first : a ∈ shares)
    (second : b ∈ shares) (le : b ≤ a) : portion pool b ≤ portion pool a := by
  have nonneg := mul_nonneg (nearest_nonneg pool) (accepted.value_nonneg second)
  have products := mul_le_mul_of_nonneg_left (accepted.value_le first second le)
    (nearest_nonneg pool)
  have wholes := Nat.floor_le_floor (nearest_mono nonneg products)
  rw [accepted.portion_eq fits first, accepted.portion_eq fits second]
  omega

theorem Accepted.exactPortion_le (pool : Nat) {a b : Float} (first : a ∈ shares)
    (second : b ∈ shares) (le : b ≤ a) : exactPortion pool b ≤ exactPortion pool a := by
  have products := mul_le_mul_of_nonneg_left (accepted.value_le first second le)
    (Nat.cast_nonneg pool)
  have wholes := Nat.floor_le_floor products
  unfold exactPortion
  omega

end

theorem pairwise_map_of_falls {shares : List Float} {f : Float → Nat}
    (falls : shares.Pairwise fun a b => b ≤ a)
    (mono : ∀ a ∈ shares, ∀ b ∈ shares, b ≤ a → f b ≤ f a) :
    (shares.map f).Pairwise (· ≥ ·) := by
  rw [List.pairwise_map]
  exact falls.imp_of_mem fun {a b} first second le => mono a first b second le

/-! ## Small pools -/

/-- How far above one the sum of the shares may be, as parts of `2 ^ 52`. -/
def tolerated : Nat := 4503600

/-- The largest sum of the shares. -/
def limit : ℚ := 1 + tolerated / 2 ^ 52

theorem stands_zero : Stands 0.0 0 := Carries.zero .positive

theorem stands_limit : Stands (1.0 + tolerance) limit := by
  have stands := stands_of_not_lt (v := 1.0 + tolerance) (by decide) (by decide)
  have positive : isNegative (1.0 + tolerance) = false := by decide
  have digits : mantissa (1.0 + tolerance) = 2 ^ 52 + tolerated := by decide
  have places : exponent (1.0 + tolerance) = -52 := by decide
  have number : value (1.0 + tolerance) = limit := by
    rw [value, positive, digits, places, limit]
    norm_num [tolerated]
  rwa [number] at stands

/-- Rounding a product makes its whole part larger by a small part at most. -/
theorem floor_nearest_le {x : ℚ} (nonneg : 0 ≤ x) : (⌊nearest x⌋₊ : ℚ) ≤ x * (1 + halfUnit) := by
  have part : 0 ≤ halfUnit := by
    unfold halfUnit
    norm_num
  rcases le_or_gt (2 ^ (-1022 : ℤ)) x with normal | tiny
  · have error := (abs_le.mp (abs_nearest_sub_le_mul normal)).2
    have floor := Nat.floor_le (nearest_nonneg x)
    linarith
  · have power : nearest ((1 : Nat) * 2 ^ (-1022 : ℤ)) = (1 : Nat) * 2 ^ (-1022 : ℤ) :=
      nearest_of_digits (by decide) (by decide)
    have rounded := nearest_mono nonneg tiny.le
    rw [Nat.cast_one, one_mul] at power
    rw [power] at rounded
    have below : nearest x < 1 :=
      rounded.trans_lt (zpow_lt_one_of_neg₀ one_lt_two (by decide))
    rw [Nat.floor_eq_zero.mpr below, Nat.cast_zero]
    exact mul_nonneg nonneg (by linarith)

theorem tally_map_le {f : Float → Nat} {c : ℚ} {shares : List Float}
    (le : ∀ share ∈ shares, (f share : ℚ) ≤ c * value share) :
    (tally (shares.map f) : ℚ) ≤ c * (shares.map value).sum := by
  induction shares with
  | nil => simp
  | cons share shares ih =>
      obtain ⟨here, later⟩ := List.forall_mem_cons.mp le
      have rest := ih later
      simp only [List.map_cons, tally_cons, List.sum_cons, Nat.cast_add, mul_add]
      linarith

section

variable {shares : List Float} (accepted : Accepted shares)
include accepted

/-- The exact sum of the shares is close to what their sum may be as a double. -/
theorem Accepted.sum_le : (shares.map value).sum ≤ limit * growth ^ shares.length := by
  have stands : ∀ share ∈ shares, Stands share (value share) := fun share => accepted.stands
  rcases foldl_add_stands stands stands_zero with infinite | ⟨q, sum, bound⟩
  · exact absurd (stands_limit.lt_infinite infinite) accepted.within
  · have small : q ≤ limit := by
      rw [← not_lt, ← stands_limit.lt_iff sum]
      exact accepted.within
    rw [zero_add] at bound
    exact bound.trans (mul_le_mul_of_nonneg_right small
      (pow_nonneg (zero_le_one.trans one_le_growth) _))

theorem Accepted.sum_mul_le (few : (shares.length : ℚ) / 2 ^ 52 ≤ 1) :
    (shares.map value).sum * (1 - shares.length / 2 ^ 52) ≤ limit := by
  have undone : 0 ≤ 1 - (shares.length : ℚ) / 2 ^ 52 := sub_nonneg.mpr few
  have nonneg : 0 ≤ limit := Carries.nonneg stands_limit
  calc _ ≤ limit * growth ^ shares.length * (1 - shares.length / 2 ^ 52) :=
        mul_le_mul_of_nonneg_right accepted.sum_le undone
    _ = limit * (growth ^ shares.length * (1 - shares.length / 2 ^ 52)) := mul_assoc _ _ _
    _ ≤ limit * 1 := mul_le_mul_of_nonneg_left (growth_pow_mul_le _ few) nonneg
    _ = limit := mul_one _

theorem Accepted.portion_le_mul {pool : Nat} (digits : pool < 2 ^ 53) {share : Float}
    (member : share ∈ shares) : (portion pool share : ℚ) ≤ pool * (1 + halfUnit) * value share := by
  have product := floor_nearest_le
    (mul_nonneg (Nat.cast_nonneg pool) (accepted.value_nonneg member))
  have cut : ((min ⌊nearest (pool * value share)⌋₊ cap : Nat) : ℚ) ≤
      ⌊nearest (pool * value share)⌋₊ := by
    exact_mod_cast Nat.min_le_left _ _
  rw [accepted.portion_eq (digits.le.trans (by decide)) member, nearest_natCast digits]
  linarith

end

/-- What the tolerance, the products and the additions can add to a pool for so many places, as parts
of `2 ^ 52` of the pool. -/
def slack (places : Nat) : Nat := tolerated + 1 + places

theorem le_cap_of_small {pool places : Nat} (small : (pool + 1) * slack places ≤ 2 ^ 52) :
    pool ≤ cap := by
  have part : pool + 1 ≤ (pool + 1) * slack places := Nat.le_mul_of_pos_right _ (by simp [slack])
  have bound : 2 ^ 52 ≤ cap := by decide
  omega

/-- What is added to a small pool is less than one chip. -/
theorem Accepted.tally_portions_le {shares : List Float} (accepted : Accepted shares) {pool : Nat}
    (small : (pool + 1) * slack shares.length ≤ 2 ^ 52) :
    tally (shares.map (portion pool)) ≤ pool := by
  unfold slack tolerated at small
  have digits : pool < 2 ^ 53 := by nlinarith
  have few : (shares.length : ℚ) / 2 ^ 52 < 1 := by
    have bound : shares.length < 2 ^ 52 := by nlinarith
    rw [div_lt_one (by positivity)]
    exact_mod_cast bound
  have undone : 0 < 1 - (shares.length : ℚ) / 2 ^ 52 := sub_pos.mpr few
  have factor : 0 ≤ (pool : ℚ) * (1 + halfUnit) := by
    unfold halfUnit
    positivity
  have less_than_a_chip :
      pool * (1 + halfUnit) * limit < ((pool : ℚ) + 1) * (1 - shares.length / 2 ^ 52) := by
    have scaled : ((pool : ℚ) + 1) * (4503600 + 1 + shares.length) ≤ 2 ^ 52 := by
      exact_mod_cast small
    have count : (0 : ℚ) ≤ pool := Nat.cast_nonneg pool
    unfold halfUnit limit tolerated
    push_cast
    linarith
  have total : (tally (shares.map (portion pool)) : ℚ) * (1 - shares.length / 2 ^ 52) <
      (pool + 1) * (1 - shares.length / 2 ^ 52) :=
    calc _ ≤ pool * (1 + halfUnit) * (shares.map value).sum * (1 - shares.length / 2 ^ 52) :=
          mul_le_mul_of_nonneg_right
            (tally_map_le fun share member => accepted.portion_le_mul digits member) undone.le
      _ = pool * (1 + halfUnit) * ((shares.map value).sum * (1 - shares.length / 2 ^ 52)) :=
          mul_assoc _ _ _
      _ ≤ pool * (1 + halfUnit) * limit :=
          mul_le_mul_of_nonneg_left (accepted.sum_mul_le few.le) factor
      _ < (pool + 1) * (1 - shares.length / 2 ^ 52) := less_than_a_chip
  have below := lt_of_mul_lt_mul_right total undone.le
  exact Nat.lt_succ_iff.mp (by exact_mod_cast below)

/-- A ladder that stays within its pool adds up within 64 bits. -/
theorem sumFits_of_le {pool : Nat} {shares : List Float} (fits : pool ≤ cap)
    (enough : tally (shares.map (portion pool)) ≤ pool) : SumFits pool shares :=
  fun _ => enough.trans fits

/-- As long as the portions of a full ladder fit together into 64 bits, an accepted ladder pays its
portions, and a full one as much more as they fall short of the pool. So it stays within the pool
exactly when its portions do. The portions of a small pool both fit and stay within it, and then a
full ladder pays all of the pool. -/
theorem prizes_within_pool_iff (pool : Nat) {shares : List Float} (accepted : Accepted shares) :
    let portions := shares.map (portion pool)
    (SumFits pool shares →
      ∃ given, prizes pool shares = .ok given ∧
        tally given = (if isFull shares then max pool (tally portions) else tally portions) ∧
        (tally given ≤ pool ↔ tally portions ≤ pool)) ∧
    ((pool + 1) * slack shares.length ≤ 2 ^ 52 →
      SumFits pool shares ∧
      ∃ given, prizes pool shares = .ok given ∧ tally given ≤ pool ∧
        (isFull shares = true → tally given = pool)) := by
  intro portions
  have paid_out : prizes pool shares = .ok (paid pool shares) :=
    prizes_eq_ok_iff.mpr ⟨accepted, rfl⟩
  have sum : tally (paid pool shares) =
      if isFull shares then max pool (tally portions) else tally portions :=
    tally_paid accepted.nonempty
  have within_iff : tally (paid pool shares) ≤ pool ↔ tally portions ≤ pool := by
    rw [sum]
    split <;> omega
  refine ⟨fun _ => ⟨_, paid_out, sum, within_iff⟩, fun small => ?_⟩
  have enough := accepted.tally_portions_le small
  refine ⟨sumFits_of_le (le_cap_of_small small) enough, _, paid_out, within_iff.mpr enough,
    fun full => ?_⟩
  rw [sum, if_pos full]
  exact Nat.max_eq_left enough

theorem accepted_threePlaces : Accepted [0.5, 0.3, 0.2] :=
  ⟨by decide, by decide, by decide, by decide⟩

theorem prizes_within_pool_iff_threePlaces :
    Accepted [0.5, 0.3, 0.2] ∧ isFull [0.5, 0.3, 0.2] = true ∧
      (1001 + 1) * slack ([0.5, 0.3, 0.2] : List Float).length ≤ 2 ^ 52 ∧
      SumFits 1001 [0.5, 0.3, 0.2] ∧
      ∃ given, prizes 1001 [0.5, 0.3, 0.2] = .ok given ∧ tally given = 1001 ∧
        (tally given ≤ 1001 ↔ tally (([0.5, 0.3, 0.2] : List Float).map (portion 1001)) ≤ 1001) := by
  have full : isFull [0.5, 0.3, 0.2] = true := by decide
  have small : (1001 + 1) * slack ([0.5, 0.3, 0.2] : List Float).length ≤ 2 ^ 52 := by
    decide
  obtain ⟨of_fits, of_small⟩ := prizes_within_pool_iff 1001 accepted_threePlaces
  obtain ⟨fits, given, paid_out, -, exactly⟩ := of_small small
  obtain ⟨again, paid_again, -, within_iff⟩ := of_fits fits
  obtain rfl : given = again := Except.ok.inj (paid_out.symm.trans paid_again)
  exact ⟨accepted_threePlaces, full, small, fits, given, paid_out, exactly full, within_iff⟩

/-- Above `2 ^ 53` chips the pool itself is rounded, and one place that gets everything gets a chip
too many. A thousand million chips are enough when the share uses the tolerance. -/
theorem prizes_exceed_pool :
    (Accepted [1.0] ∧ isFull [1.0] = true ∧
      prizes 9007199254740995 [1.0] = .ok [9007199254740996] ∧
      ¬ tally [9007199254740996] ≤ 9007199254740995) ∧
    (Accepted [1.000000001] ∧ prizes 1000000000 [1.000000001] = .ok [1000000001] ∧
      ¬ tally [1000000001] ≤ 1000000000) := by
  have whole : Accepted [1.0] := ⟨by decide, by decide, by decide, by decide⟩
  have beyond : Accepted [1.000000001] := ⟨by decide, by decide, by decide, by decide⟩
  exact ⟨⟨whole, by decide, prizes_eq_ok_iff.mpr ⟨whole, by decide⟩, by decide⟩,
    ⟨beyond, prizes_eq_ok_iff.mpr ⟨beyond, by decide⟩, by decide⟩⟩

/-! ## Full ladders -/

/-- A full ladder whose portions do not exceed the pool pays exactly the pool. Dealing chip by chip
gives each place the same number on top of its portion, and one more to the first places. Shares that
fall give prizes that fall, by the exact products and by the rounded ones. -/
theorem full_ladder_dealt_fairly {pool : Nat} {shares : List Float} (accepted : Accepted shares)
    (full : isFull shares = true) (enough : tally (shares.map (portion pool)) ≤ pool) :
    let left := pool - tally (shares.map (portion pool))
    ∃ given, prizes pool shares = .ok given ∧
      given = dealUnits (List.range shares.length) left (shares.map (portion pool)) ∧
      tally given = pool ∧ given.length = shares.length ∧
      (∀ (k : Nat) (share : Float), shares[k]? = some share →
        given[k]? = some (portion pool share + left / shares.length +
          if k < left % shares.length then 1 else 0)) ∧
      (shares.Pairwise (fun a b => b ≤ a) →
        (dealOut pool (shares.map (exactPortion pool))).Pairwise (· ≥ ·) ∧
        (pool ≤ cap → given.Pairwise (· ≥ ·))) := by
  intro left
  have same : paid pool shares = dealOut pool (shares.map (portion pool)) := if_pos full
  refine ⟨dealOut pool (shares.map (portion pool)), prizes_eq_ok_iff.mpr ⟨accepted, same⟩,
    ?_, ?_, ?_, fun k share here => ?_, fun falls => ⟨?_, fun fits => ?_⟩⟩
  · rw [dealOut_eq_dealUnits, List.length_map]
  · rw [tally_dealOut pool (by simpa using accepted.nonempty)]
    exact Nat.max_eq_left enough
  · simp [dealOut]
  · rw [dealOut, List.getElem?_mapIdx, List.getElem?_map, here, List.length_map]
    simp only [Option.map_some, topUp, Nat.add_assoc]
    rfl
  · exact pairwise_dealOut pool (pairwise_map_of_falls falls fun a first b second =>
      accepted.exactPortion_le pool first second)
  · exact pairwise_dealOut pool (pairwise_map_of_falls falls fun a first b second =>
      accepted.portion_le fits first second)

theorem full_ladder_dealt_fairly_threePlaces :
    Accepted [0.5, 0.3, 0.2] ∧ isFull [0.5, 0.3, 0.2] = true ∧
      tally (([0.5, 0.3, 0.2] : List Float).map (portion 1001)) ≤ 1001 ∧
      ([0.5, 0.3, 0.2] : List Float).Pairwise (fun a b => b ≤ a) ∧
      ∃ given, prizes 1001 [0.5, 0.3, 0.2] = .ok given ∧ tally given = 1001 ∧
        given[0]? = some 501 ∧ given.Pairwise (· ≥ ·) := by
  have full : isFull [0.5, 0.3, 0.2] = true := by decide
  have enough : tally (([0.5, 0.3, 0.2] : List Float).map (portion 1001)) ≤ 1001 := by decide
  have falls : ([0.5, 0.3, 0.2] : List Float).Pairwise (fun a b => b ≤ a) := by decide
  obtain ⟨given, paid_out, -, exactly, -, places, order⟩ :=
    full_ladder_dealt_fairly accepted_threePlaces full enough
  refine ⟨accepted_threePlaces, full, enough, falls, given, paid_out, exactly, ?_,
    (order falls).2 (by decide)⟩
  rw [places 0 0.5 rfl]
  decide

end CardRoom.Ladder
