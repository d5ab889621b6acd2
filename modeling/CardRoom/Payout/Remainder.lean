import CardRoom.Decimal.Binary64
import CardRoom.Tally

/-! # Rounding with a fixed total

Amounts are rounded down and the units that are then missing from a total are dealt one at a
time, going round in a fixed order as often as needed. `topUp` says what a place in that order
gets. The method of largest remainders takes the order of the fractional parts, the largest first
and the earlier place first among equal ones.
-/

namespace CardRoom

/-- What the place `rank` gets when `missing` units are dealt one by one round `n` places. -/
def topUp (missing n rank : Nat) : Nat := missing / n + if rank < missing % n then 1 else 0

/-- Numbers with a whole part and a fractional part. -/
class Fractional (R : Type) where
  /-- The number rounded down, within 0 and the largest 64-bit number. -/
  whole : R → Nat
  /-- What rounding down takes off. -/
  fraction : R → R
  /-- The first number is at least the second. -/
  atLeast : R → R → Bool

/-- Doubles compare by their bits, so even a NaN has its place. -/
instance : Fractional Float where
  whole v := (Binary64.floor v).toUInt64.toNat
  fraction v := v - Binary64.floor v
  atLeast a b := Binary64.orderKey b ≤ Binary64.orderKey a

/-- The places of the numbers, the largest fractional part first. -/
def remainderOrder {R : Type} [Fractional R] (raw : List R) : List Nat :=
  ((raw.map Fractional.fraction).zipIdx.mergeSort fun a b => Fractional.atLeast a.1 b.1).map
    Prod.snd

/-- The numbers rounded to whole ones that make up `total`. Nothing is taken away when the whole
parts alone exceed the total. Their sum is the exact one, which 64-bit sums reach only up to the
cap: a total up to the cap that the whole parts do not exceed is safe. -/
def largestRemainder {R : Type} [Fractional R] (raw : List R) (total : Nat) : List Nat :=
  let floors := raw.map Fractional.whole
  let order := remainderOrder raw
  floors.mapIdx fun i floor => floor + topUp (total - tally floors) raw.length (order.idxOf i)

theorem tally_topUp (missing : Nat) {n : Nat} (some_place : 0 < n) :
    tally ((List.range n).map (topUp missing n)) = missing := by
  have counted : ∀ k, tally ((List.range k).map (topUp missing n)) =
      k * (missing / n) + min k (missing % n) := by
    intro k
    induction k with
    | zero => simp
    | succ k ih =>
      rw [List.range_succ, List.map_append, tally_append, ih]
      simp only [List.map_cons, List.map_nil, tally_cons, tally_nil, topUp, Nat.succ_mul]
      split <;> omega
  have small := Nat.mod_lt missing some_place
  have whole := Nat.div_add_mod missing n
  rw [counted n, Nat.min_eq_right (Nat.le_of_lt small)]
  exact whole

end CardRoom
