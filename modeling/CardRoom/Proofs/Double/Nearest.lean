import Mathlib

/-! # The nearest double

A double has 53 binary digits, or fewer when its last digit is already the smallest there is. The
digits of a number that is not negative end at its unit, and rounding takes the nearest multiple of
that unit, of two the even one. Rounding keeps the order of numbers and leaves alone what is
already a multiple of the unit. It is off by half a unit at most, which is a small part of every
number that is not tiny.
-/

namespace CardRoom.Binary64

/-! ## Whole numbers -/

/-- The whole number nearest to a number that is not negative, the even one of two. -/
def halfEven (x : ℚ) : Nat :=
  if x - ⌊x⌋₊ < 1 / 2 then ⌊x⌋₊
  else if 1 / 2 < x - ⌊x⌋₊ then ⌊x⌋₊ + 1
  else ⌊x⌋₊ + ⌊x⌋₊ % 2

theorem floor_le_halfEven (x : ℚ) : ⌊x⌋₊ ≤ halfEven x := by
  unfold halfEven
  split_ifs <;> omega

theorem halfEven_le_floor_add_one (x : ℚ) : halfEven x ≤ ⌊x⌋₊ + 1 := by
  unfold halfEven
  split_ifs <;> omega

@[simp] theorem halfEven_natCast (n : Nat) : halfEven n = n := by
  have exact_floor : ⌊(n : ℚ)⌋₊ = n := Nat.floor_natCast n
  rw [halfEven, exact_floor, sub_self, if_pos (by norm_num)]

theorem halfEven_mono {x y : ℚ} (le : x ≤ y) : halfEven x ≤ halfEven y := by
  rcases (Nat.floor_le_floor le).lt_or_eq with below | same
  · exact (halfEven_le_floor_add_one x).trans ((Nat.succ_le_of_lt below).trans (floor_le_halfEven y))
  · unfold halfEven
    rw [same]
    split_ifs <;> first | omega | linarith

theorem abs_halfEven_sub_le {x : ℚ} (nonneg : 0 ≤ x) : |(halfEven x : ℚ) - x| ≤ 1 / 2 := by
  have below := Nat.floor_le nonneg
  have above := Nat.lt_floor_add_one x
  unfold halfEven
  split_ifs with less more
  · rw [abs_le]
    constructor <;> linarith
  · rw [abs_le, Nat.cast_add, Nat.cast_one]
    constructor <;> linarith
  · have parity : ((⌊x⌋₊ % 2 : Nat) : ℚ) ≤ 1 := by
      exact_mod_cast Nat.le_of_lt_succ (Nat.mod_lt ⌊x⌋₊ two_pos)
    have parity_nonneg : (0 : ℚ) ≤ ((⌊x⌋₊ % 2 : Nat) : ℚ) := Nat.cast_nonneg _
    rw [abs_le, Nat.cast_add]
    constructor <;> linarith

/-! ## Units -/

/-- The power of two that the digits of a number end with. -/
def unitExponent (x : ℚ) : ℤ := max (Int.log 2 x - 52) (-1074)

/-- The number rounded to the digits of a double. -/
def nearest (x : ℚ) : ℚ := halfEven (x / 2 ^ unitExponent x) * 2 ^ unitExponent x

theorem unit_pos (e : ℤ) : (0 : ℚ) < 2 ^ e := zpow_pos two_pos e

theorem nearest_nonneg (x : ℚ) : 0 ≤ nearest x :=
  mul_nonneg (Nat.cast_nonneg _) (unit_pos _).le

@[simp] theorem nearest_zero : nearest 0 = 0 := by
  have nothing : halfEven 0 = 0 := by exact_mod_cast halfEven_natCast 0
  rw [nearest, zero_div, nothing, Nat.cast_zero, zero_mul]

variable {x y : ℚ}

/-- The digits of a number stay below the next power of two. -/
theorem div_unit_lt (x : ℚ) : x / 2 ^ unitExponent x < 2 ^ (53 : ℤ) := by
  have below : x < 2 ^ (Int.log 2 x + 1) := Int.lt_zpow_succ_log_self one_lt_two x
  rw [div_lt_iff₀ (unit_pos _), ← zpow_add₀ two_ne_zero]
  have exponents : Int.log 2 x + 1 ≤ 53 + unitExponent x := by
    unfold unitExponent
    omega
  exact below.trans_le (zpow_le_zpow_right₀ one_le_two exponents)

/-- All 53 digits are in use when there is a smaller unit. -/
theorem le_div_unit (positive : 0 < x) (normal : -1074 < unitExponent x) :
    2 ^ (52 : ℤ) ≤ x / 2 ^ unitExponent x := by
  have above : (2 : ℚ) ^ Int.log 2 x ≤ x := Int.zpow_log_le_self one_lt_two positive
  rw [le_div_iff₀ (unit_pos _), ← zpow_add₀ two_ne_zero]
  have exponents : 52 + unitExponent x ≤ Int.log 2 x := by
    unfold unitExponent at normal ⊢
    omega
  exact (zpow_le_zpow_right₀ one_le_two exponents).trans above

theorem halfEven_div_unit_le (x : ℚ) : halfEven (x / 2 ^ unitExponent x) ≤ 2 ^ 53 := by
  have bound := halfEven_mono (div_unit_lt x).le
  have power : ((2 : ℚ) ^ (53 : ℤ)) = ((2 ^ 53 : Nat) : ℚ) := by norm_num
  rwa [power, halfEven_natCast] at bound

theorem le_halfEven_div_unit (positive : 0 < x) (normal : -1074 < unitExponent x) :
    2 ^ 52 ≤ halfEven (x / 2 ^ unitExponent x) := by
  have bound := halfEven_mono (le_div_unit positive normal)
  have power : ((2 : ℚ) ^ (52 : ℤ)) = ((2 ^ 52 : Nat) : ℚ) := by norm_num
  rwa [power, halfEven_natCast] at bound

theorem nearest_mono (nonneg : 0 ≤ x) (le : x ≤ y) : nearest x ≤ nearest y := by
  rcases nonneg.eq_or_lt with rfl | positive
  · rw [nearest_zero]
    exact nearest_nonneg y
  have logs : Int.log 2 x ≤ Int.log 2 y := Int.log_mono_right positive le
  have units : unitExponent x ≤ unitExponent y := by
    unfold unitExponent
    omega
  rcases units.eq_or_lt with same | finer
  · unfold nearest
    rw [same]
    refine mul_le_mul_of_nonneg_right ?_ (unit_pos _).le
    exact_mod_cast halfEven_mono (div_le_div_of_nonneg_right le (unit_pos _).le)
  · -- The smaller number rounds to the next power of two at most, and the larger one is beyond.
    have normal : -1074 < unitExponent y := by
      have least : -1074 ≤ unitExponent x := le_max_right _ _
      omega
    have small := halfEven_div_unit_le x
    have large := le_halfEven_div_unit (positive.trans_le le) normal
    calc nearest x ≤ ((2 ^ 53 : Nat) : ℚ) * 2 ^ unitExponent x :=
          mul_le_mul_of_nonneg_right (by exact_mod_cast small) (unit_pos _).le
      _ = ((2 ^ 52 : Nat) : ℚ) * 2 ^ (unitExponent x + 1) := by
          rw [zpow_add_one₀ two_ne_zero]
          push_cast
          ring
      _ ≤ ((2 ^ 52 : Nat) : ℚ) * 2 ^ unitExponent y :=
          mul_le_mul_of_nonneg_left (zpow_le_zpow_right₀ one_le_two finer) (Nat.cast_nonneg _)
      _ ≤ nearest y := mul_le_mul_of_nonneg_right (by exact_mod_cast large) (unit_pos _).le

/-! ## Numbers that need no rounding -/

theorem log_mul_zpow {m : Nat} (positive : 0 < m) (e : ℤ) :
    Int.log 2 ((m : ℚ) * 2 ^ e) = Nat.log2 m + e := by
  have number : (0 : ℚ) < m * 2 ^ e := mul_pos (Nat.cast_pos.mpr positive) (unit_pos e)
  have above : ((2 : ℚ) ^ Nat.log2 m) ≤ m := by exact_mod_cast Nat.log2_self_le positive.ne'
  have below : (m : ℚ) < 2 ^ (Nat.log2 m + 1) := by exact_mod_cast Nat.lt_log2_self
  apply le_antisymm
  · rw [← Int.lt_add_one_iff, ← Int.lt_zpow_iff_log_lt one_lt_two number, add_right_comm,
      Nat.cast_ofNat, zpow_add₀ two_ne_zero]
    exact mul_lt_mul_of_pos_right (by exact_mod_cast below) (unit_pos e)
  · rw [← Int.zpow_le_iff_le_log one_lt_two number, Nat.cast_ofNat,
      zpow_add₀ two_ne_zero, zpow_natCast]
    exact mul_le_mul_of_nonneg_right above (unit_pos e).le

theorem unitExponent_mul_zpow {m : Nat} (positive : 0 < m) (e : ℤ) :
    unitExponent (m * 2 ^ e) = max (Nat.log2 m + e - 52) (-1074) := by
  rw [unitExponent, log_mul_zpow positive]

/-- A multiple of its unit is its own nearest double. -/
theorem nearest_of_multiple {m : Nat} {e : ℤ} (multiple : unitExponent (m * 2 ^ e) ≤ e) :
    nearest (m * 2 ^ e) = m * 2 ^ e := by
  obtain ⟨k, places⟩ := Int.eq_ofNat_of_zero_le (sub_nonneg.mpr multiple)
  have split : (2 : ℚ) ^ e = 2 ^ k * 2 ^ unitExponent (m * 2 ^ e) := by
    rw [← zpow_natCast, ← zpow_add₀ two_ne_zero, ← places]
    congr 1
    omega
  have whole : (m * 2 ^ e : ℚ) / 2 ^ unitExponent (m * 2 ^ e) = ((m * 2 ^ k : Nat) : ℚ) := by
    rw [div_eq_iff (unit_pos _).ne']
    push_cast
    rw [mul_assoc, ← split]
  rw [nearest, whole, halfEven_natCast, ← whole, div_mul_cancel₀ _ (unit_pos _).ne']

/-- A number with 53 digits or fewer is its own nearest double. -/
theorem nearest_of_digits {m : Nat} (digits : m < 2 ^ 53) {e : ℤ} (least : -1074 ≤ e) :
    nearest (m * 2 ^ e) = m * 2 ^ e := by
  rcases Nat.eq_zero_or_pos m with rfl | positive
  · simp
  apply nearest_of_multiple
  have log : Nat.log2 m < 53 := (Nat.log2_lt positive.ne').mpr digits
  rw [unitExponent_mul_zpow positive]
  omega

/-! ## What rounding changes -/

theorem abs_nearest_sub_le (nonneg : 0 ≤ x) : |nearest x - x| ≤ 2 ^ unitExponent x / 2 := by
  have error := abs_halfEven_sub_le (div_nonneg nonneg (unit_pos (unitExponent x)).le)
  have scaled : nearest x - x =
      (halfEven (x / 2 ^ unitExponent x) - x / 2 ^ unitExponent x) * 2 ^ unitExponent x := by
    rw [sub_mul, div_mul_cancel₀ _ (unit_pos _).ne', nearest]
  rw [scaled, abs_mul, abs_of_pos (unit_pos _)]
  calc _ ≤ 1 / 2 * (2 : ℚ) ^ unitExponent x := mul_le_mul_of_nonneg_right error (unit_pos _).le
    _ = 2 ^ unitExponent x / 2 := by ring

/-- The largest part of a number that half a unit can be. -/
def halfUnit : ℚ := 1 / 2 ^ 53

/-- A number that uses all its digits is changed by a small part of it. -/
theorem abs_nearest_sub_le_mul (normal : 2 ^ (-1022 : ℤ) ≤ x) :
    |nearest x - x| ≤ x * halfUnit := by
  have positive : 0 < x := (unit_pos _).trans_le normal
  have log : -1022 ≤ Int.log 2 x := (Int.zpow_le_iff_le_log one_lt_two positive).mp normal
  have unit : unitExponent x = Int.log 2 x - 52 := by
    unfold unitExponent
    omega
  have digits : (2 : ℚ) ^ unitExponent x * 2 ^ 52 ≤ x := by
    rw [unit, zpow_sub₀ two_ne_zero]
    have above : (2 : ℚ) ^ Int.log 2 x ≤ x := Int.zpow_log_le_self one_lt_two positive
    simpa using above
  refine (abs_nearest_sub_le positive.le).trans ?_
  unfold halfUnit
  linarith

end CardRoom.Binary64
