import Mathlib
import CardRoom.Decimal.Binary64
import CardRoom.Proofs.Double.Rounding

/-! # What doubles stand for

A finite double is its digits times a power of two, read off the bits. Packing a rounded result into
bits and reading it again gives the same digits, unless the exponent is too large, and then the
double is infinite. Finite doubles compare as the numbers that they stand for.
-/

namespace CardRoom.Binary64

open Float.Model UnpackedFloat

/-! ## Bits -/

theorem toNat_unpackMantissa (v : Float) :
    (@unpackMantissa .binary64 v.toBits.toBitVec).toNat = fractionBits v := by
  rw [unpackMantissa_def, BitVec.extractLsb'_toNat]
  rfl

theorem toNat_unpackExponent (v : Float) :
    (@unpackExponent .binary64 v.toBits.toBitVec).toNat = exponentBits v := by
  rw [unpackExponent_def, BitVec.extractLsb'_toNat]
  rfl

theorem toNat_unpackSign (v : Float) :
    (@unpackSign .binary64 v.toBits.toBitVec).toNat = v.toBits.toNat >>> 63 % 2 := by
  rw [unpackSign_def, BitVec.extractLsb'_toNat]
  rfl

/-- The sign of a double. -/
def sign (v : Float) : Sign := if isNegative v then .negative else .positive

theorem ofBitVec_unpackSign (v : Float) :
    Sign.ofBitVec (@unpackSign .binary64 v.toBits.toBitVec) = sign v := by
  have bits : v.toBits.toNat < 2 ^ 64 := v.toBits.toNat_lt
  have top : @unpackSign .binary64 v.toBits.toBitVec = 0#1 ↔ v.toBits.toNat < signBit := by
    rw [← BitVec.toNat_inj, toNat_unpackSign, Nat.shiftRight_eq_div_pow, signBit,
      Nat.one_shiftLeft]
    show _ = 0 ↔ _
    omega
  unfold Sign.ofBitVec sign isNegative
  by_cases negative : signBit ≤ v.toBits.toNat
  · rw [if_neg (by rw [top]; omega), if_pos (by simpa using negative)]
  · rw [if_pos (by rw [top]; omega), if_neg (by simpa using negative)]

theorem exponentBits_lt (v : Float) : exponentBits v < 2048 := Nat.mod_lt _ (by decide)

theorem fractionBits_lt (v : Float) : fractionBits v < 2 ^ 52 := Nat.mod_lt _ (by decide)

theorem unpackMantissa_eq_zero_iff (v : Float) :
    @unpackMantissa .binary64 v.toBits.toBitVec = 0#52 ↔ fractionBits v = 0 := by
  rw [← BitVec.toNat_inj, toNat_unpackMantissa]
  rfl

theorem unpackExponent_eq_zero_iff (v : Float) :
    @unpackExponent .binary64 v.toBits.toBitVec = 0#11 ↔ exponentBits v = 0 := by
  rw [← BitVec.toNat_inj, toNat_unpackExponent]
  rfl

theorem unpackExponent_eq_ones_iff (v : Float) :
    @unpackExponent .binary64 v.toBits.toBitVec = -1#11 ↔ isFinite v = false := by
  rw [← BitVec.toNat_inj, toNat_unpackExponent, isFinite, decide_eq_false_iff_not]
  have small := exponentBits_lt v
  show _ = 2047 ↔ _
  omega

theorem toNat_leadingOne_append (b : BitVec 52) : (1#1 ++ b).toNat = leadingOne + b.toNat := by
  rw [BitVec.toNat_append, ← Nat.shiftLeft_add_eq_or_of_lt b.isLt]
  rfl

theorem finite_congr {s : Sign} {m n : Nat} {e f : Int} (digits : m = n) (exponents : e = f)
    (positive : 0 < m) :
    UnpackedFloat.finite s m e positive = .finite s n f (digits ▸ positive) := by
  subst digits exponents
  rfl

/-- A finite double is made of its digits and its exponent. -/
theorem unpack_of_finite {v : Float} (finite : isFinite v = true) :
    v.toModel.unpack =
      if nothing : mantissa v = 0 then .zero (sign v)
      else .finite (sign v) (mantissa v) (exponent v) (Nat.pos_of_ne_zero nothing) := by
  have bounded : @unpackExponent .binary64 v.toBits.toBitVec ≠ -1#11 := by
    rw [Ne, unpackExponent_eq_ones_iff, finite]
    exact Bool.noConfusion
  have bias : (Format.binary64.exponentBias : Int) = 1023 := rfl
  show UnpackedFloat.unpack .binary64 v.toBits.toBitVec = _
  unfold UnpackedFloat.unpack
  simp only [if_neg bounded, ofBitVec_unpackSign]
  by_cases tiny : exponentBits v = 0
  · rw [if_pos ((unpackExponent_eq_zero_iff v).mpr tiny)]
    have digits : mantissa v = fractionBits v := if_pos tiny
    by_cases nothing : fractionBits v = 0
    · rw [dif_pos ((unpackMantissa_eq_zero_iff v).mpr nothing), dif_pos (digits.trans nothing)]
    · rw [dif_neg (mt (unpackMantissa_eq_zero_iff v).mp nothing), dif_neg (digits ▸ nothing)]
      refine finite_congr ((toNat_unpackMantissa v).trans digits.symm) ?_ _
      rw [toNat_unpackExponent, bias, exponent, tiny]
      rfl
  · rw [if_neg (mt (unpackExponent_eq_zero_iff v).mp tiny)]
    have digits : mantissa v = leadingOne + fractionBits v := if_neg tiny
    have some_digit : mantissa v ≠ 0 := by
      rw [digits, leadingOne]
      omega
    rw [dif_neg some_digit]
    refine finite_congr ((toNat_leadingOne_append _).trans ?_) ?_ _
    · rw [toNat_unpackMantissa, digits]
    rw [toNat_unpackExponent, bias, exponent, Nat.max_eq_left (Nat.pos_of_ne_zero tiny)]
    push_cast
    ring

theorem unpack_of_not_finite {v : Float} (infinite : isFinite v = false) :
    v.toModel.unpack = .infinity (sign v) ∨ v.toModel.unpack = .notANumber := by
  have ones := (unpackExponent_eq_ones_iff v).mpr infinite
  show UnpackedFloat.unpack .binary64 v.toBits.toBitVec = _ ∨
    UnpackedFloat.unpack .binary64 v.toBits.toBitVec = _
  unfold UnpackedFloat.unpack
  simp only [if_pos ones, ofBitVec_unpackSign]
  split
  · exact .inl rfl
  · exact .inr rfl

theorem mantissa_lt (v : Float) : mantissa v < 2 ^ 53 := by
  have small := fractionBits_lt v
  unfold mantissa leadingOne
  split <;> omega

theorem le_exponent (v : Float) : -1074 ≤ exponent v := by
  unfold exponent
  omega

theorem full_mantissa (v : Float) : 2 ^ 52 ≤ mantissa v ∨ exponent v = -1074 := by
  unfold mantissa exponent leadingOne
  split
  · next tiny => exact .inr (by rw [tiny]; rfl)
  · exact .inl (Nat.le_add_right _ _)

/-! ## Values -/

/-- The number that a finite double stands for. -/
def value (v : Float) : ℚ := (if isNegative v then -1 else 1) * (mantissa v * 2 ^ exponent v)

/-- The double stands for a number that is not negative. -/
def Stands (v : Float) (q : ℚ) : Prop := Carries v.toModel.unpack q

theorem stands_value {v : Float} (finite : isFinite v = true)
    (nonneg : isNegative v = true → mantissa v = 0) : Stands v (value v) := by
  unfold Stands value
  rw [unpack_of_finite finite]
  by_cases nothing : mantissa v = 0
  · rw [dif_pos nothing, nothing, Nat.cast_zero, zero_mul, mul_zero]
    exact .zero _
  · have positive : isNegative v = false := Bool.eq_false_iff.mpr (mt nonneg nothing)
    have plus : sign v = .positive := by simp [sign, positive]
    simp only [dif_neg nothing, plus, positive, Bool.false_eq_true, if_false, one_mul]
    exact .finite _ (mantissa_lt v) (le_exponent v) (full_mantissa v)

theorem Stands.finite {v : Float} {q : ℚ} (stands : Stands v q) : isFinite v = true := by
  by_contra infinite
  unfold Stands at stands
  rcases unpack_of_not_finite (Bool.eq_false_iff.mpr infinite) with endless | nothing
  · rw [endless] at stands
    cases stands
  · rw [nothing] at stands
    cases stands

theorem Stands.eq {v : Float} {q : ℚ} (stands : Stands v q) : q = mantissa v * 2 ^ exponent v := by
  have unpacked := unpack_of_finite stands.finite
  unfold Stands at stands
  rw [unpacked] at stands
  by_cases nothing : mantissa v = 0
  · rw [dif_pos nothing] at stands
    rw [nothing, Nat.cast_zero, zero_mul, stands.eq_zero]
  · rw [dif_neg nothing] at stands
    exact stands.eq_finite.2

theorem Stands.positive {v : Float} {q : ℚ} (stands : Stands v q) (some_digit : mantissa v ≠ 0) :
    isNegative v = false := by
  have unpacked := unpack_of_finite stands.finite
  unfold Stands at stands
  rw [unpacked, dif_neg some_digit] at stands
  have plus := stands.eq_finite.1
  unfold sign at plus
  split at plus
  · cases plus
  · next positive => exact Bool.eq_false_iff.mpr positive

/-! ## Packing -/

theorem unpack_infinite (s : Sign) :
    UnpackedFloat.unpack .binary64 (packComponents .binary64 s (-1#11) 0#52) = .infinity s := by
  unfold UnpackedFloat.unpack
  simp only [unpackExponent_packComponents, unpackMantissa_packComponents,
    unpackSign_packComponents, Sign.ofBitVec_toBitVec]
  rfl

theorem unpack_tiny (s : Sign) {m : Nat} (positive : 0 < m) (few : m < 2 ^ 52) :
    UnpackedFloat.unpack .binary64 (packComponents .binary64 s 0#11 (BitVec.ofNat 52 m)) =
      .finite s m (-1074) positive := by
  have kept : (BitVec.ofNat 52 m).toNat = m := by
    rw [BitVec.toNat_ofNat]
    exact Nat.mod_eq_of_lt few
  have nonzero : BitVec.ofNat 52 m ≠ 0#52 := by
    rw [Ne, ← BitVec.toNat_inj, kept]
    exact positive.ne'
  unfold UnpackedFloat.unpack
  simp only [unpackExponent_packComponents, unpackMantissa_packComponents,
    unpackSign_packComponents, Sign.ofBitVec_toBitVec]
  rw [if_neg (by decide), if_pos trivial, dif_neg nonzero]
  exact finite_congr kept rfl _

theorem unpack_full (s : Sign) {m k : Nat} (positive : 0 < m) (many : 2 ^ 52 ≤ m)
    (digits : m < 2 ^ 53) (normal : 0 < k) (bounded : k < 2047) :
    UnpackedFloat.unpack .binary64
        (packComponents .binary64 s (BitVec.ofNat 11 k) (BitVec.ofNat 52 m)) =
      .finite s m (k - 1075) positive := by
  have stored : (BitVec.ofNat 11 k).toNat = k := by
    rw [BitVec.toNat_ofNat]
    exact Nat.mod_eq_of_lt (by omega)
  have kept : leadingOne + (BitVec.ofNat 52 m).toNat = m := by
    rw [BitVec.toNat_ofNat]
    show 2 ^ 52 + m % 2 ^ 52 = m
    omega
  have finite : BitVec.ofNat 11 k ≠ -1#11 := by
    rw [Ne, ← BitVec.toNat_inj, stored]
    exact bounded.ne
  have some_exponent : BitVec.ofNat 11 k ≠ 0#11 := by
    rw [Ne, ← BitVec.toNat_inj, stored]
    exact normal.ne'
  unfold UnpackedFloat.unpack
  simp only [unpackExponent_packComponents, unpackMantissa_packComponents,
    unpackSign_packComponents, Sign.ofBitVec_toBitVec]
  rw [if_neg finite, if_neg some_exponent]
  refine finite_congr ((toNat_leadingOne_append _).trans kept) ?_ _
  rw [stored]
  rfl

theorem le_mul_zpow_of_large {m : Nat} {e : Int} (many : 2 ^ 52 ≤ m) (large : 972 ≤ e) :
    (2 : ℚ) ^ 1024 ≤ m * 2 ^ e :=
  calc (2 : ℚ) ^ 1024 = ((2 ^ 52 : Nat) : ℚ) * 2 ^ (972 : Int) := by
        rw [Nat.cast_pow, Nat.cast_ofNat, ← zpow_natCast, ← zpow_natCast, ← zpow_add₀ two_ne_zero]
        rfl
    _ ≤ ((2 ^ 52 : Nat) : ℚ) * 2 ^ e :=
        mul_le_mul_of_nonneg_left (zpow_le_zpow_right₀ one_le_two large) (Nat.cast_nonneg _)
    _ ≤ m * 2 ^ e := mul_le_mul_of_nonneg_right (by exact_mod_cast many) (unit_pos e).le

/-- Reading back a packed result gives the same digits, unless it is too large. -/
theorem unpack_pack {x : UnpackedFloat} {q : ℚ} (carries : Carries x q) :
    (Float.Model.pack x).unpack = x ∨
      (Float.Model.pack x).unpack = .infinity .positive ∧ 2 ^ 1024 ≤ q := by
  show UnpackedFloat.unpack .binary64 (UnpackedFloat.pack .binary64 x) = x ∨
    UnpackedFloat.unpack .binary64 (UnpackedFloat.pack .binary64 x) = .infinity .positive ∧ _
  cases carries with
  | zero s => exact .inl unpack_packedZero
  | finite positive digits least full =>
      rename_i m e
      have bias : (Format.binary64.exponentBias : Int) = 1023 := rfl
      generalize biased : (e + Format.binary64.exponentBias + (52 : Nat)).toNat = k
      obtain rfl : e = k - 1075 := by omega
      unfold UnpackedFloat.pack
      simp only [biased]
      by_cases large : 2 ^ 11 ≤ k + 1
      · have many : 2 ^ 52 ≤ m := full.resolve_right (by omega)
        rw [if_pos large]
        exact .inr ⟨unpack_infinite _, le_mul_zpow_of_large many (by omega)⟩
      · left
        rw [if_neg large]
        by_cases many : 2 ^ 52 ≤ m
        · have log : Nat.log2 m = 52 := (Nat.log2_eq_iff positive.ne').mpr ⟨many, digits⟩
          rw [if_pos (by rw [log]; rfl)]
          exact unpack_full _ positive many digits (by omega) (by omega)
        · have log : Nat.log2 m < 52 := (Nat.log2_lt positive.ne').mpr (Nat.not_le.mp many)
          obtain rfl : k = 1 := by
            have tiny := full.resolve_left many
            omega
          rw [if_neg (by show Nat.log2 m + 1 ≠ 53; omega)]
          exact unpack_tiny _ positive (Nat.not_le.mp many)

/-! ## Order -/

theorem lt_iff {a b : Float} :
    a < b ↔ UnpackedFloat.compare a.toModel.unpack b.toModel.unpack = some .lt := by
  show a.lt b = true ↔ _
  unfold Float.lt
  rw [decide_eq_true_iff]
  show a.toModel.lt b.toModel = true ↔ _
  unfold Float.Model.lt UnpackedFloat.lt
  exact beq_iff_eq

theorem le_iff {a b : Float} :
    a ≤ b ↔ (UnpackedFloat.compare a.toModel.unpack b.toModel.unpack).any Ordering.isLE = true := by
  show a.le b = true ↔ _
  unfold Float.le
  rw [decide_eq_true_iff]
  rfl

theorem mul_zpow_lt_of_lt {m n : Nat} {e f : Int} (digits : m < 2 ^ 53)
    (full : 2 ^ 52 ≤ n ∨ f = -1074) (least : -1074 ≤ e) (less : e < f) :
    (m : ℚ) * 2 ^ e < n * 2 ^ f := by
  have many : 2 ^ 52 ≤ n := full.resolve_right (by omega)
  calc (m : ℚ) * 2 ^ e < ((2 ^ 53 : Nat) : ℚ) * 2 ^ e :=
        mul_lt_mul_of_pos_right (by exact_mod_cast digits) (unit_pos e)
    _ = ((2 ^ 52 : Nat) : ℚ) * 2 ^ (e + 1) := by
        rw [zpow_add_one₀ two_ne_zero]
        push_cast
        ring
    _ ≤ ((2 ^ 52 : Nat) : ℚ) * 2 ^ f :=
        mul_le_mul_of_nonneg_left (zpow_le_zpow_right₀ one_le_two less) (Nat.cast_nonneg _)
    _ ≤ n * 2 ^ f := mul_le_mul_of_nonneg_right (by exact_mod_cast many) (unit_pos f).le

/-- Exponents and digits compare as the numbers do. -/
theorem compare_finite {m n : Nat} {e f : Int} (digits : m < 2 ^ 53) (other : n < 2 ^ 53)
    (full : 2 ^ 52 ≤ m ∨ e = -1074) (full_other : 2 ^ 52 ≤ n ∨ f = -1074) (least : -1074 ≤ e)
    (least_other : -1074 ≤ f) :
    (compare e f).then (compare m n) = compare ((m : ℚ) * 2 ^ e) (n * 2 ^ f) := by
  rcases lt_trichotomy e f with less | rfl | more
  · have numbers := mul_zpow_lt_of_lt digits full_other least less
    rw [compare_lt_iff_lt.mpr less, compare_lt_iff_lt.mpr numbers]
    rfl
  · rw [compare_eq_iff_eq.mpr rfl]
    rcases lt_trichotomy m n with fewer | rfl | further
    · have numbers : (m : ℚ) * 2 ^ e < n * 2 ^ e :=
        mul_lt_mul_of_pos_right (by exact_mod_cast fewer) (unit_pos e)
      rw [compare_lt_iff_lt.mpr fewer, compare_lt_iff_lt.mpr numbers]
      rfl
    · rw [compare_eq_iff_eq.mpr rfl, compare_eq_iff_eq.mpr rfl]
      rfl
    · have numbers : (n : ℚ) * 2 ^ e < m * 2 ^ e :=
        mul_lt_mul_of_pos_right (by exact_mod_cast further) (unit_pos e)
      rw [compare_gt_iff_gt.mpr further, compare_gt_iff_gt.mpr numbers]
      rfl
  · have numbers := mul_zpow_lt_of_lt other full least_other more
    rw [compare_gt_iff_gt.mpr more, compare_gt_iff_gt.mpr numbers]
    rfl

theorem Carries.compare_eq {x y : UnpackedFloat} {p q : ℚ} (first : Carries x p)
    (second : Carries y q) : UnpackedFloat.compare x y = some (compare p q) := by
  cases first with
  | zero =>
      cases second with
      | zero => rfl
      | finite positive digits least full =>
          rename_i n f
          have number : (0 : ℚ) < n * 2 ^ f := mul_pos (Nat.cast_pos.mpr positive) (unit_pos f)
          rw [compare_lt_iff_lt.mpr number]
          rfl
  | finite positive digits least full =>
      rename_i m e
      cases second with
      | zero =>
          have number : (0 : ℚ) < m * 2 ^ e := mul_pos (Nat.cast_pos.mpr positive) (unit_pos e)
          rw [compare_gt_iff_gt.mpr number]
          rfl
      | finite _ other least_other full_other =>
          rw [← compare_finite digits other full full_other least least_other]
          rfl

theorem Stands.lt_iff {a b : Float} {p q : ℚ} (first : Stands a p) (second : Stands b q) :
    a < b ↔ p < q := by
  rw [Binary64.lt_iff, Carries.compare_eq first second, Option.some_inj, compare_lt_iff_lt]

theorem Stands.le_iff {a b : Float} {p q : ℚ} (first : Stands a p) (second : Stands b q) :
    a ≤ b ↔ p ≤ q := by
  rw [Binary64.le_iff, Carries.compare_eq first second, Option.any_some, ← compare_le_iff_le]
  exact Ordering.isLE_iff_ne_gt

theorem Stands.lt_infinite {a b : Float} {q : ℚ} (stands : Stands a q)
    (infinite : b.toModel.unpack = .infinity .positive) : a < b := by
  unfold Stands at stands
  rw [Binary64.lt_iff, infinite]
  generalize a.toModel.unpack = x at stands
  cases stands <;> rfl

/-- A finite double that does not compare below zero stands for its number. -/
theorem stands_of_not_lt {v : Float} (finite : isFinite v = true) (nonneg : ¬ v < 0.0) :
    Stands v (value v) := by
  refine stands_value finite fun negative => ?_
  by_contra some_digit
  apply nonneg
  have nothing : (0.0 : Float).toModel.unpack = .zero .positive := rfl
  have minus : sign v = .negative := if_pos negative
  rw [lt_iff, unpack_of_finite finite, dif_neg some_digit, minus, nothing]
  rfl

end CardRoom.Binary64
