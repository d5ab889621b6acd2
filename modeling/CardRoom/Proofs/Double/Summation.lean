import Mathlib
import CardRoom.Proofs.Double.Arithmetic

/-! # Sums of doubles

Each addition can lose a small part of the sum so far. Doubles are multiples of the smallest unit, so
nothing is lost where the digits reach down to it, and the loss is never more than the last digit of
53. A sum of many doubles can therefore be less than the exact sum, but only by a factor that grows
with their number, or it is infinite.
-/

namespace CardRoom.Binary64

open Float.Model UnpackedFloat

/-- The factor by which one addition can fall short. -/
def growth : ℚ := 1 + 1 / 2 ^ 52

theorem one_le_growth : 1 ≤ growth := by
  unfold growth
  norm_num

theorem Carries.exists_multiple {x : UnpackedFloat} {q : ℚ} (carries : Carries x q) :
    ∃ n : Nat, q = n * 2 ^ (-1074 : Int) := by
  cases carries with
  | zero => exact ⟨0, by rw [Nat.cast_zero, zero_mul]⟩
  | finite positive digits least full =>
      rename_i m e
      obtain ⟨-, same⟩ := decreaseExponent_eq (m := m) least
      exact ⟨_, same.symm⟩

theorem le_nearest_mul {x : ℚ} (normal : 2 ^ (-1022 : Int) ≤ x) : x ≤ nearest x * growth := by
  have error := (abs_le.mp (abs_nearest_sub_le_mul normal)).1
  have positive : 0 < x := (unit_pos _).trans_le normal
  unfold halfUnit at error
  unfold growth
  linarith

/-- Rounding the sum of two doubles makes it smaller by one part in `2 ^ 52` at most. -/
theorem le_nearest_add {x y : UnpackedFloat} {p q : ℚ} (first : Carries x p) (second : Carries y q) :
    p + q ≤ nearest (p + q) * growth := by
  obtain ⟨m, rfl⟩ := first.exists_multiple
  obtain ⟨n, rfl⟩ := second.exists_multiple
  rw [← add_mul, ← Nat.cast_add]
  by_cases digits : m + n < 2 ^ 53
  · rw [nearest_of_digits digits le_rfl]
    exact le_mul_of_one_le_right (mul_nonneg (Nat.cast_nonneg _) (unit_pos _).le) one_le_growth
  · apply le_nearest_mul
    calc (2 : ℚ) ^ (-1022 : Int) = ((2 ^ 52 : Nat) : ℚ) * 2 ^ (-1074 : Int) := by
          rw [Nat.cast_pow, Nat.cast_ofNat, ← zpow_natCast, ← zpow_add₀ two_ne_zero]
          rfl
      _ ≤ ((m + n : Nat) : ℚ) * 2 ^ (-1074 : Int) := by
          refine mul_le_mul_of_nonneg_right ?_ (unit_pos _).le
          exact_mod_cast (show 2 ^ 52 ≤ m + n by omega)

theorem foldl_add_infinite {summands : List Float} (stands : ∀ s ∈ summands, Stands s (value s))
    {sofar : Float} (infinite : sofar.toModel.unpack = .infinity .positive) :
    (summands.foldl (· + ·) sofar).toModel.unpack = .infinity .positive := by
  induction summands generalizing sofar with
  | nil => exact infinite
  | cons s summands ih =>
      obtain ⟨here, later⟩ := List.forall_mem_cons.mp stands
      exact ih later (add_infinite infinite here)

/-- Adding up doubles falls short of the exact sum by the factor of each addition at most. -/
theorem foldl_add_stands {summands : List Float} (stands : ∀ s ∈ summands, Stands s (value s))
    {sofar : Float} {p : ℚ} (start : Stands sofar p) :
    (summands.foldl (· + ·) sofar).toModel.unpack = .infinity .positive ∨
      ∃ q, Stands (summands.foldl (· + ·) sofar) q ∧
        p + (summands.map value).sum ≤ q * growth ^ summands.length := by
  induction summands generalizing sofar p with
  | nil => exact .inr ⟨p, start, by simp⟩
  | cons s summands ih =>
      obtain ⟨here, later⟩ := List.forall_mem_cons.mp stands
      rcases start.add here with sum | ⟨infinite, -⟩
      · refine (ih later sum).imp_right fun ⟨q, total, bound⟩ => ⟨q, total, ?_⟩
        have rest : 0 ≤ (summands.map value).sum := by
          apply List.sum_nonneg
          intro q member
          obtain ⟨t, listed, rfl⟩ := List.mem_map.mp member
          exact Carries.nonneg (later t listed)
        rw [List.map_cons, List.sum_cons, List.length_cons, pow_succ]
        calc p + (value s + (summands.map value).sum)
            = (p + value s) + (summands.map value).sum := by ring
          _ ≤ nearest (p + value s) * growth + (summands.map value).sum * growth :=
              add_le_add (le_nearest_add start here) (le_mul_of_one_le_right rest one_le_growth)
          _ = (nearest (p + value s) + (summands.map value).sum) * growth := by ring
          _ ≤ q * growth ^ summands.length * growth :=
              mul_le_mul_of_nonneg_right bound (zero_le_one.trans one_le_growth)
          _ = q * (growth ^ summands.length * growth) := by ring
      · exact .inl (foldl_add_infinite later infinite)

/-- Many additions fall short by about as many parts in `2 ^ 52`. -/
theorem growth_pow_mul_le (n : Nat) (few : (n : ℚ) / 2 ^ 52 ≤ 1) :
    growth ^ n * (1 - n / 2 ^ 52) ≤ 1 := by
  induction n with
  | zero => simp
  | succ n ih =>
      rw [Nat.cast_add, Nat.cast_one] at few ⊢
      have fewer := ih (by linarith)
      have power : 0 ≤ growth ^ n := pow_nonneg (zero_le_one.trans one_le_growth) n
      have step : growth * (1 - ((n : ℚ) + 1) / 2 ^ 52) ≤ 1 - n / 2 ^ 52 := by
        have squares : (0 : ℚ) ≤ n := Nat.cast_nonneg n
        unfold growth
        nlinarith
      calc growth ^ (n + 1) * (1 - ((n : ℚ) + 1) / 2 ^ 52)
          = growth ^ n * (growth * (1 - ((n : ℚ) + 1) / 2 ^ 52)) := by ring
        _ ≤ growth ^ n * (1 - n / 2 ^ 52) := mul_le_mul_of_nonneg_left step power
        _ ≤ 1 := fewer

end CardRoom.Binary64
