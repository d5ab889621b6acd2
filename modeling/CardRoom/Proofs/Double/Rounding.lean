import Mathlib
import CardRoom.Proofs.Double.Nearest

/-! # Rounding to a double

A result is shifted to the right until its last digit is its unit, two bits keep track of what is
lost, and from them the last digit is rounded. The kept digits and the two bits always tell how
the exact result lies between two whole numbers, so what comes out is the nearest double.
-/

namespace CardRoom.Binary64

open Float.Model UnpackedFloat

/-! ## Digits that are lost -/

/-- Kept digits with their two bits tell where a number lies. -/
def Shows (digits : ExtendedMantissa) (x : ℚ) : Prop :=
  match digits.roundBit, digits.stickyBit with
  | false, false => x = digits.mantissa
  | false, true => digits.mantissa < x ∧ x < digits.mantissa + 1 / 2
  | true, false => x = digits.mantissa + 1 / 2
  | true, true => digits.mantissa + 1 / 2 < x ∧ x < digits.mantissa + 1

theorem shows_exact (m : Nat) : Shows (.ofMantissaAndAccuracy m .exact) m := rfl

variable {digits : ExtendedMantissa} {x : ℚ}

theorem Shows.bounds (shows_it : Shows digits x) :
    (digits.mantissa : ℚ) ≤ x ∧ x < digits.mantissa + 1 := by
  obtain ⟨m, round, sticky⟩ := digits
  cases round <;> cases sticky <;> simp only [Shows] at shows_it <;>
    constructor <;> linarith

theorem Shows.floor (shows_it : Shows digits x) : ⌊x⌋₊ = digits.mantissa := by
  obtain ⟨below, above⟩ := shows_it.bounds
  exact (Nat.floor_eq_iff ((Nat.cast_nonneg _).trans below)).mpr ⟨below, above⟩

theorem Shows.roundedMantissa (shows_it : Shows digits x) :
    digits.roundedMantissa = halfEven x := by
  have whole := shows_it.floor
  obtain ⟨m, round, sticky⟩ := digits
  cases round <;> cases sticky <;>
    simp only [Shows] at shows_it <;>
    simp only [ExtendedMantissa.roundedMantissa, ExtendedMantissa.accuracy,
      Accuracy.roundToNearestEven, halfEven, whole]
  · rw [if_pos (by linarith)]
  · rw [if_pos (by linarith)]
  · rw [if_neg (by linarith), if_neg (by linarith)]
  · rw [if_neg (by linarith), if_pos (by linarith)]

theorem Shows.shiftRightOne (shows_it : Shows digits x) : Shows digits.shiftRightOne (x / 2) := by
  obtain ⟨m, round, sticky⟩ := digits
  have halves : (m : ℚ) = 2 * (m / 2 : Nat) + (m % 2 : Nat) := by
    exact_mod_cast (Nat.div_add_mod m 2).symm
  rcases Nat.mod_two_eq_zero_or_one m with even | odd
  · rw [even] at halves
    cases round <;> cases sticky <;>
      simp only [Shows, ExtendedMantissa.shiftRightOne, even] at shows_it ⊢ <;>
      norm_num at * <;> first | linarith | (constructor <;> linarith)
  · rw [odd] at halves
    have some_rest : (1 != 0) = true := rfl
    cases round <;> cases sticky <;>
      simp only [Shows, ExtendedMantissa.shiftRightOne, odd, some_rest] at shows_it ⊢ <;>
      norm_num at * <;> first | linarith | (constructor <;> linarith)

theorem Shows.shiftRight (shows_it : Shows digits x) (k : Nat) : Shows (digits >>> k) (x / 2 ^ k) := by
  induction k with
  | zero =>
      rw [pow_zero, div_one]
      exact shows_it
  | succ k ih =>
      rw [pow_succ, ← div_div]
      exact ih.shiftRightOne

/-! ## The last digit -/

/-- The number is what digits of a double that is not negative stand for, if there is no largest
exponent. -/
inductive Carries : UnpackedFloat → ℚ → Prop
  | zero (sign : Sign) : Carries (.zero sign) 0
  | finite {m : Nat} {e : Int} (positive : 0 < m) (digits : m < 2 ^ 53) (least : -1074 ≤ e)
      (full : 2 ^ 52 ≤ m ∨ e = -1074) : Carries (.finite .positive m e positive) (m * 2 ^ e)

theorem Carries.nonneg {v : UnpackedFloat} {q : ℚ} (carries : Carries v q) : 0 ≤ q := by
  cases carries with
  | zero => exact le_rfl
  | finite => exact mul_nonneg (Nat.cast_nonneg _) (unit_pos _).le

theorem Carries.eq_zero {s : Sign} {q : ℚ} (carries : Carries (.zero s) q) : q = 0 := by
  cases carries
  rfl

theorem Carries.eq_finite {s : Sign} {m : Nat} {e : Int} {positive : 0 < m} {q : ℚ}
    (carries : Carries (.finite s m e positive) q) : s = .positive ∧ q = m * 2 ^ e := by
  cases carries
  exact ⟨rfl, rfl⟩

/-- The exponent that core calculates with is that of the unit. -/
theorem targetExponent_eq {m : Nat} (positive : 0 < m) (e : Int) :
    Format.binary64.targetExponent (totalExponent m e) = unitExponent (m * 2 ^ e) := by
  rw [unitExponent_mul_zpow positive]
  simp only [Format.targetExponent, totalExponent, Format.mantissaBits, Format.minExponent]
  norm_num
  omega

/-- Digits that fit in a double stay as they are. -/
theorem shiftToTargetExponent_of_digits {m : Nat} (digits : m < 2 ^ 53) {e : Int}
    (least : -1074 ≤ e) :
    shiftToTargetExponent .binary64 m e .exact = (.ofMantissaAndAccuracy m .exact, e) := by
  have nothing : (Format.binary64.targetExponent (totalExponent m e) - e).toNat = 0 := by
    have log : Nat.log2 m ≤ 52 := by
      rcases Nat.eq_zero_or_pos m with rfl | positive
      · simp
      · exact Nat.le_of_lt_succ ((Nat.log2_lt positive.ne').mpr digits)
    simp only [Format.targetExponent, totalExponent, Format.mantissaBits, Format.minExponent]
    norm_num
    omega
  simp only [shiftToTargetExponent, shiftToExponent, nothing, Nat.cast_zero, add_zero]
  rfl

/-- One digit too many is the next power of two. -/
theorem shiftToTargetExponent_of_carry {e : Int} (least : -1074 ≤ e) :
    shiftToTargetExponent .binary64 (2 ^ 53) e .exact =
      (.ofMantissaAndAccuracy (2 ^ 52) .exact, e + 1) := by
  have one : (Format.binary64.targetExponent (totalExponent (2 ^ 53) e) - e).toNat = 1 := by
    simp only [Format.targetExponent, totalExponent, Format.mantissaBits, Format.minExponent,
      Nat.log2_two_pow]
    norm_num
    omega
  simp only [shiftToTargetExponent, shiftToExponent, one, Nat.cast_one]
  rfl

/-- The first shift leaves digits that round to the nearest double. -/
theorem roundedMantissa_shiftToTargetExponent {m : Nat} {e : Int} (positive : 0 < m)
    (long : e ≤ unitExponent (m * 2 ^ e)) :
    let shifted := shiftToTargetExponent .binary64 m e .exact
    shifted.2 = unitExponent (m * 2 ^ e) ∧
      shifted.1.roundedMantissa = halfEven (m * 2 ^ e / 2 ^ unitExponent (m * 2 ^ e)) := by
  obtain ⟨k, places⟩ := Int.eq_ofNat_of_zero_le (sub_nonneg.mpr long)
  have amount : (Format.binary64.targetExponent (totalExponent m e) - e).toNat = k := by
    rw [targetExponent_eq positive, places]
    rfl
  have split : (2 : ℚ) ^ unitExponent (m * 2 ^ e) = 2 ^ e * 2 ^ k := by
    rw [← zpow_natCast, ← zpow_add₀ two_ne_zero]
    congr 1
    omega
  have exact_part : (m * 2 ^ e / 2 ^ unitExponent (m * 2 ^ e) : ℚ) = m / 2 ^ k := by
    rw [split, mul_comm (m : ℚ), mul_div_mul_left _ _ (unit_pos e).ne']
  simp only [shiftToTargetExponent, shiftToExponent, amount]
  refine ⟨by omega, ?_⟩
  rw [exact_part]
  exact ((shows_exact m).shiftRight k).roundedMantissa

/-- Digits that go on to the unit of their number or beyond it are rounded to the nearest double. -/
theorem carries_roundWithAccuracy {m : Nat} {e : Int} (positive : 0 < m)
    (long : e ≤ unitExponent (m * 2 ^ e)) :
    Carries (roundWithAccuracy .binary64 .positive m e .exact) (nearest (m * 2 ^ e)) := by
  obtain ⟨exponent, rounded⟩ := roundedMantissa_shiftToTargetExponent positive long
  have number : (0 : ℚ) < m * 2 ^ e := mul_pos (Nat.cast_pos.mpr positive) (unit_pos e)
  have least : -1074 ≤ unitExponent ((m : ℚ) * 2 ^ e) := le_max_right _ _
  have most : halfEven (m * 2 ^ e / 2 ^ unitExponent (m * 2 ^ e)) ≤ 2 ^ 53 := halfEven_div_unit_le _
  have full : 2 ^ 52 ≤ halfEven (m * 2 ^ e / 2 ^ unitExponent (m * 2 ^ e)) ∨
      unitExponent ((m : ℚ) * 2 ^ e) = -1074 := by
    rcases least.lt_or_eq with normal | tiny
    · exact .inl (le_halfEven_div_unit number normal)
    · exact .inr tiny.symm
  unfold roundWithAccuracy
  simp only [exponent, rounded]
  unfold nearest
  generalize halfEven (m * 2 ^ e / 2 ^ unitExponent (m * 2 ^ e)) = n at *
  generalize unitExponent ((m : ℚ) * 2 ^ e) = u at *
  rcases most.lt_or_eq with digits | rfl
  · simp only [shiftToTargetExponent_of_digits digits least]
    split
    · next nothing =>
      have none_left : n = 0 := nothing
      rw [none_left, Nat.cast_zero, zero_mul]
      exact .zero _
    · next some_left => exact .finite _ digits least full
  · have power : ((2 ^ 53 : Nat) : ℚ) * 2 ^ u = ((2 ^ 52 : Nat) : ℚ) * 2 ^ (u + 1) := by
      rw [zpow_add_one₀ two_ne_zero]
      push_cast
      ring
    simp only [shiftToTargetExponent_of_carry least]
    rw [power]
    exact .finite (by decide) (by decide) (by omega) (.inl le_rfl)

/-- More digits at a smaller exponent are the same number. -/
theorem shiftLeft_mul_zpow (m k : Nat) (e : Int) :
    ((m <<< k : Nat) : ℚ) * 2 ^ (e - k) = m * 2 ^ e := by
  rw [Nat.shiftLeft_eq, zpow_sub₀ two_ne_zero, zpow_natCast]
  push_cast
  field_simp

theorem shiftLeft_pos {m : Nat} (positive : 0 < m) (k : Nat) : 0 < m <<< k := by
  rw [Nat.shiftLeft_eq]
  exact Nat.mul_pos positive (Nat.two_pow_pos k)

/-- Digits of any length are rounded to the nearest double. -/
theorem carries_round {m : Nat} (positive : 0 < m) (e : Int) :
    Carries (UnpackedFloat.round .binary64 .positive m e) (nearest (m * 2 ^ e)) := by
  unfold UnpackedFloat.round decreaseExponent
  simp only [targetExponent_eq positive]
  generalize amount : (e - unitExponent ((m : ℚ) * 2 ^ e)).toNat = k
  rw [← shiftLeft_mul_zpow m k e]
  apply carries_roundWithAccuracy (shiftLeft_pos positive k)
  rw [shiftLeft_mul_zpow]
  omega

end CardRoom.Binary64
