import Mathlib
import CardRoom.Chips
import CardRoom.Payout.Remainder
import CardRoom.Proofs.Double.Value

/-! # Arithmetic of doubles

Sums, products and whole numbers are the exact results, rounded to the nearest double. A result that
is too large is infinite, which as a whole number is the cap, so rounding a double down always gives
the whole part of its number, cut off at the cap.
-/

namespace CardRoom.Binary64

open Float.Model UnpackedFloat

/-- The double stands for the number, or the number is too large and the double is infinite. -/
def Holds (v : Float) (q : ℚ) : Prop :=
  Stands v q ∨ v.toModel.unpack = .infinity .positive ∧ 2 ^ 1024 ≤ q

theorem holds_pack {x : UnpackedFloat} {q : ℚ} (carries : Carries x q) :
    Holds (Float.ofModel (Float.Model.pack x)) q := by
  rcases unpack_pack carries with same | large
  · left
    unfold Stands
    rwa [same]
  · exact .inr large

theorem Holds.stands {v : Float} {q : ℚ} (holds : Holds v q) (small : q < 2 ^ 1024) : Stands v q :=
  holds.resolve_right fun large => absurd large.2 (not_le.mpr small)

/-! ## Sums -/

theorem Carries.nearest_eq {x : UnpackedFloat} {q : ℚ} (carries : Carries x q) : nearest q = q := by
  cases carries with
  | zero => exact nearest_zero
  | finite positive digits least full => exact nearest_of_digits digits least

/-- Moving digits to a smaller exponent keeps the number. -/
theorem decreaseExponent_eq {m : Nat} {e f : Int} (le : f ≤ e) :
    decreaseExponent m e f = (m <<< (e - f).toNat, f) ∧
      ((m <<< (e - f).toNat : Nat) : ℚ) * 2 ^ f = m * 2 ^ e := by
  obtain ⟨k, places⟩ := Int.eq_ofNat_of_zero_le (sub_nonneg.mpr le)
  have amount : (e - f).toNat = k := by omega
  obtain rfl : e = f + k := by omega
  have smaller : f + k - k = f := by omega
  have number := shiftLeft_mul_zpow m k (f + k)
  rw [smaller] at number
  exact ⟨by simp only [decreaseExponent, amount, smaller], by rw [amount, number]⟩

theorem carries_normalize {m : Nat} (positive : 0 < m) (e : Int) :
    Carries (UnpackedFloat.normalize .binary64 m e .positive) (nearest (m * 2 ^ e)) := by
  have more : compare (m : Int) 0 = .gt := compare_gt_iff_gt.mpr (by omega)
  unfold UnpackedFloat.normalize
  rw [more]
  exact carries_round positive e

theorem carries_add {x y : UnpackedFloat} {p q : ℚ} (first : Carries x p) (second : Carries y q) :
    Carries (UnpackedFloat.add .binary64 x y) (nearest (p + q)) := by
  cases first with
  | zero s =>
      rw [zero_add, second.nearest_eq]
      cases second with
      | zero t =>
          unfold UnpackedFloat.add
          dsimp only
          split <;> exact .zero _
      | finite positive digits least full => exact .finite positive digits least full
  | finite positive digits least full =>
      rename_i m e
      have own : Carries (.finite .positive m e positive) (m * 2 ^ e) :=
        .finite positive digits least full
      cases second with
      | zero =>
          rw [add_zero, own.nearest_eq]
          exact own
      | finite positive_other digits_other least_other full_other =>
          rename_i n f
          obtain ⟨one, same⟩ := decreaseExponent_eq (m := m) (min_le_left e f)
          obtain ⟨two, same_other⟩ := decreaseExponent_eq (m := n) (min_le_right e f)
          have some_digit := shiftLeft_pos positive (e - min e f).toNat
          generalize m <<< (e - min e f).toNat = a at *
          generalize n <<< (f - min e f).toNat = b at *
          rw [← same, ← same_other, ← add_mul, ← Nat.cast_add]
          unfold UnpackedFloat.add
          simp only [one, two]
          exact carries_normalize (Nat.add_pos_left some_digit b) _

theorem Stands.add {a b : Float} {p q : ℚ} (first : Stands a p) (second : Stands b q) :
    Holds (a + b) (nearest (p + q)) :=
  holds_pack (carries_add first second)

/-- A sum with an infinite double is infinite. -/
theorem add_infinite {a b : Float} {q : ℚ} (first : a.toModel.unpack = .infinity .positive)
    (second : Stands b q) : (a + b).toModel.unpack = .infinity .positive := by
  have sum : UnpackedFloat.add .binary64 a.toModel.unpack b.toModel.unpack =
      .infinity .positive := by
    unfold Stands at second
    rw [first]
    generalize b.toModel.unpack = y at second
    cases second <;> rfl
  show UnpackedFloat.unpack .binary64 (UnpackedFloat.pack .binary64
    (UnpackedFloat.add .binary64 a.toModel.unpack b.toModel.unpack)) = _
  rw [sum]
  exact unpack_infinite _

/-! ## Products -/

/-- The digits of a product go on to its unit or beyond it. -/
theorem le_unitExponent_mul {m n : Nat} {e f : Int} (positive : 0 < m) (positive_other : 0 < n)
    (full : 2 ^ 52 ≤ m ∨ e = -1074) (full_other : 2 ^ 52 ≤ n ∨ f = -1074) :
    e + f ≤ unitExponent ((m * n : Nat) * 2 ^ (e + f)) := by
  have digits : 0 < m * n := Nat.mul_pos positive positive_other
  rw [unitExponent_mul_zpow digits]
  by_cases many : 2 ^ 52 ≤ m * n
  · have log : 52 ≤ Nat.log2 (m * n) := (Nat.le_log2 digits.ne').mpr many
    omega
  · have few : ¬ 2 ^ 52 ≤ m := fun large =>
      many (large.trans (Nat.le_mul_of_pos_right m positive_other))
    have few_other : ¬ 2 ^ 52 ≤ n := fun large =>
      many (large.trans (Nat.le_mul_of_pos_left n positive))
    have last := full.resolve_left few
    have last_other := full_other.resolve_left few_other
    omega

theorem mul_zpow_mul_mul_zpow (m n : Nat) (e f : Int) :
    ((m : ℚ) * 2 ^ e) * (n * 2 ^ f) = (m * n : Nat) * 2 ^ (e + f) := by
  rw [zpow_add₀ two_ne_zero]
  push_cast
  ring

theorem carries_mul {x y : UnpackedFloat} {p q : ℚ} (first : Carries x p) (second : Carries y q) :
    Carries (UnpackedFloat.mul .binary64 x y) (nearest (p * q)) := by
  cases first with
  | zero s =>
      rw [zero_mul, nearest_zero]
      cases second <;> exact .zero _
  | finite positive digits least full =>
      cases second with
      | zero =>
          rw [mul_zero, nearest_zero]
          exact .zero _
      | finite positive_other digits_other least_other full_other =>
          rw [mul_zpow_mul_mul_zpow]
          exact carries_roundWithAccuracy (Nat.mul_pos positive positive_other)
            (le_unitExponent_mul positive positive_other full full_other)

theorem Stands.mul {a b : Float} {p q : ℚ} (first : Stands a p) (second : Stands b q) :
    Holds (a * b) (nearest (p * q)) :=
  holds_pack (carries_mul first second)

/-! ## Whole numbers -/

theorem holds_toFloat (n : UInt64) : Holds n.toFloat (nearest n.toNat) := by
  refine holds_pack (x := UnpackedFloat.normalize .binary64 n.toNat 0 .positive) ?_
  rcases Nat.eq_zero_or_pos n.toNat with nothing | positive
  · simp only [nothing, Nat.cast_zero, nearest_zero]
    exact .zero _
  · have carries := carries_normalize positive 0
    rwa [zpow_zero, mul_one] at carries

theorem nearest_natCast {n : Nat} (digits : n < 2 ^ 53) : nearest n = n := by
  have same := nearest_of_digits digits (e := 0) (by decide)
  rwa [zpow_zero, mul_one] at same

theorem nearest_natCast_lt {n : Nat} (fits : n ≤ cap) : nearest n < 2 ^ 1024 := by
  have below : (n : ℚ) ≤ (1 : Nat) * 2 ^ (64 : Int) := by
    have bound : n ≤ 2 ^ 64 := fits.trans (by decide)
    rw [Nat.cast_one, one_mul]
    exact_mod_cast bound
  have power : nearest ((1 : Nat) * 2 ^ (64 : Int)) = (1 : Nat) * 2 ^ (64 : Int) :=
    nearest_of_digits (by decide) (by decide)
  have le := nearest_mono (Nat.cast_nonneg n) below
  rw [power, Nat.cast_one, one_mul] at le
  refine le.trans_lt ?_
  rw [← zpow_natCast]
  exact zpow_lt_zpow_right₀ one_lt_two (by decide)

theorem stands_one : Stands (Float.ofBits 0x3ff0000000000000) 1 := by
  have one : Carries (.finite .positive (2 ^ 52) (-52) (by decide))
      ((2 ^ 52 : Nat) * 2 ^ (-52 : Int)) :=
    .finite (by decide) (by decide) (by decide) (.inl le_rfl)
  have value : ((2 ^ 52 : Nat) : ℚ) * 2 ^ (-52 : Int) = 1 := by norm_num
  rw [value] at one
  exact one

theorem stands_ofNat_of_digits {n : Nat} (digits : n < 2 ^ 53) : Stands (Float.ofNat n) n := by
  have spelled : Float.ofNat n = n.toUInt64.toFloat * Float.ofBits 0x3ff0000000000000 := by
    show Float.ofScientific n false 0 = _
    unfold Float.ofScientific
    rw [dif_pos ⟨digits, by decide⟩]
    rfl
  have kept : n.toUInt64.toNat = n := by
    show n % 2 ^ 64 = n
    omega
  have small : (n : ℚ) < 2 ^ 1024 := by
    rw [← nearest_natCast digits]
    exact nearest_natCast_lt (show n ≤ 2 ^ 64 - 1 by omega)
  have converted : Stands n.toUInt64.toFloat n := by
    have holds := holds_toFloat n.toUInt64
    rw [kept, nearest_natCast digits] at holds
    exact holds.stands small
  have product := converted.mul stands_one
  rw [mul_one, nearest_natCast digits] at product
  rw [spelled]
  exact product.stands small

/-- A number with more digits than a double is rounded after a shift. -/
theorem ofNat_of_long {n : Nat} (long : 2 ^ 53 ≤ n) :
    Float.ofNat n = Float.ofModel (Float.Model.pack
      (roundWithAccuracy .binary64 .positive (n <<< 53) (-53) .exact)) := by
  have range : (0 : Int) ≤ 2 ^ Format.binary64.exponentBits := by positivity
  have shift : n <<< 53 = n <<< 53 * 1 := (Nat.mul_one _).symm
  show Float.ofScientific n false 0 = _
  unfold Float.ofScientific
  rw [dif_neg fun short => absurd short.1 (Nat.not_lt.mpr long)]
  show Float.ofModel (Float.Model.pack (UnpackedFloat.ofScientific .binary64 n 0)) = _
  unfold UnpackedFloat.ofScientific
  rw [dif_neg (by omega), if_neg (by decide), if_neg (by omega), if_pos le_rfl, shift]
  rfl

/-- A number of 64 bits becomes the nearest double. -/
theorem stands_ofNat {n : Nat} (fits : n ≤ cap) : Stands (Float.ofNat n) (nearest n) := by
  rcases Nat.lt_or_ge n (2 ^ 53) with digits | long
  · rw [nearest_natCast digits]
    exact stands_ofNat_of_digits digits
  · have shifted : 0 < n <<< 53 := shiftLeft_pos (by omega) 53
    have number := shiftLeft_mul_zpow n 53 0
    rw [zero_sub, Nat.cast_ofNat, zpow_zero, mul_one] at number
    have unit : -53 ≤ unitExponent ((n <<< 53 : Nat) * 2 ^ (-53 : Int)) := by
      have log : 52 ≤ Nat.log2 (n <<< 53) := by
        rw [Nat.le_log2 shifted.ne', Nat.shiftLeft_eq]
        omega
      rw [unitExponent_mul_zpow shifted]
      omega
    have carries : Carries _ (nearest ((n <<< 53 : Nat) * 2 ^ (-53 : Int))) :=
      carries_roundWithAccuracy shifted unit
    rw [number] at carries
    rw [ofNat_of_long long]
    exact (holds_pack carries).stands (nearest_natCast_lt fits)

/-! ## Whole parts -/

theorem mantissa_shiftRight (m k : Nat) :
    (ExtendedMantissa.ofMantissaAndAccuracy m .exact >>> k).mantissa = ⌊(m : ℚ) / 2 ^ k⌋₊ :=
  ((shows_exact m).shiftRight k).floor.symm

theorem roundToInt_eq (m : Nat) (e : Int) :
    roundToInt .positive m e = ⌊(m : ℚ) * 2 ^ e⌋₊ := by
  unfold roundToInt
  rcases le_or_gt 0 e with whole | part
  · obtain ⟨moved, same⟩ := decreaseExponent_eq (m := m) whole
    rw [zpow_zero, mul_one] at same
    simp only [moved, shiftToExponent]
    rw [← same, Nat.floor_natCast]
    rfl
  · obtain ⟨k, rfl⟩ : ∃ k : Nat, e = -k := ⟨e.natAbs, by omega⟩
    have amount : (-(k : Int) - 0).toNat = 0 := by omega
    have places : (0 - (-(k : Int) - (0 : Nat))).toNat = k := by omega
    simp only [decreaseExponent, shiftToExponent, amount, places, mantissa_shiftRight, zpow_neg,
      zpow_natCast]
    rfl

theorem Carries.toInt {x : UnpackedFloat} {q : ℚ} (carries : Carries x q) (low high : Int) :
    x.toInt low high = ⌊q⌋₊ := by
  cases carries with
  | zero => simp [UnpackedFloat.toInt]
  | finite => exact roundToInt_eq _ _

theorem toNat_ofNatClamp (n : Nat) : (UInt64.ofNatClamp n).toNat = min n cap := by
  unfold UInt64.ofNatClamp cap
  split
  · next fits => exact (Nat.min_eq_left (Nat.le_sub_one_of_lt fits)).symm
  · next large => exact (Nat.min_eq_right ((Nat.sub_le _ _).trans (Nat.not_lt.mp large))).symm

theorem Stands.toUInt64 {v : Float} {q : ℚ} (stands : Stands v q) :
    v.toUInt64.toNat = min ⌊q⌋₊ cap := by
  show (UInt64.ofNatClamp (UnpackedFloat.toInt _ _ v.toModel.unpack).toNat).toNat = _
  rw [Carries.toInt stands, toNat_ofNatClamp]
  rfl

/-- Rounding a double down gives the whole part of its number, cut off at the cap. -/
theorem Stands.whole {v : Float} {q : ℚ} (stands : Stands v q) :
    Fractional.whole v = min ⌊q⌋₊ cap := by
  show (floor v).toUInt64.toNat = _
  by_cases plain : !isFinite v || 0 ≤ exponent v || mantissa v % (1 <<< (-exponent v).toNat) == 0
  · rw [floor, if_pos plain, stands.toUInt64]
  · have small : exponent v < 0 := by
      by_contra large
      simp [not_lt.mp large] at plain
    have some_digit : mantissa v ≠ 0 := by
      intro nothing
      simp [nothing] at plain
    have positive := stands.positive some_digit
    obtain ⟨k, places⟩ : ∃ k : Nat, exponent v = -k := ⟨(exponent v).natAbs, by omega⟩
    have amount : (-exponent v).toNat = k := by omega
    have digits : mantissa v / 2 ^ k < 2 ^ 53 :=
      (Nat.div_le_self _ _).trans_lt (mantissa_lt v)
    have part : ⌊q⌋₊ = mantissa v / 2 ^ k := by
      have quotient : q = (mantissa v : ℚ) / (2 ^ k : Nat) := by
        rw [stands.eq, places, zpow_neg, zpow_natCast, div_eq_mul_inv]
        push_cast
        rfl
      rw [quotient, Nat.floor_div_eq_div]
    rw [floor, if_neg plain, if_neg (by simp [positive]), amount, Nat.one_shiftLeft,
      (stands_ofNat_of_digits digits).toUInt64, Nat.floor_natCast, part]

theorem Holds.whole {v : Float} {q : ℚ} (holds : Holds v q) :
    Fractional.whole v = min ⌊q⌋₊ cap := by
  rcases holds with stands | ⟨endless, large⟩
  · exact stands.whole
  · have infinite : isFinite v = false := by
      by_contra finite
      have unpacked := unpack_of_finite (Bool.not_eq_false _ |>.mp finite)
      rw [endless] at unpacked
      split at unpacked <;> cases unpacked
    have beyond : cap ≤ ⌊q⌋₊ := by
      have bound : ((2 ^ 64 : Nat) : ℚ) ≤ q := by
        rw [Nat.cast_pow, Nat.cast_ofNat]
        exact (pow_le_pow_right₀ one_le_two (by decide)).trans large
      exact (show cap ≤ 2 ^ 64 by decide).trans (Nat.le_floor bound)
    have unchanged : floor v = v := by
      rw [floor, if_pos (by simp [infinite])]
    rw [Nat.min_eq_right beyond]
    show (floor v).toUInt64.toNat = cap
    rw [unchanged]
    show (UInt64.ofNatClamp (UnpackedFloat.toInt _ _ v.toModel.unpack).toNat).toNat = _
    rw [endless]
    rfl

end CardRoom.Binary64
