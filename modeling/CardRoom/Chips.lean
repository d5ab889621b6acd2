import CardRoom.Tally

/-! # Chips

An amount of chips lies between zero and a 64-bit cap. Adding stops at the cap and
taking away stops at zero, so no operation wraps. A sum is therefore wrong in one way
only, by having been cut off, and `count_sum_of_le` says when it was not.
-/

namespace CardRoom

/-- The largest number that a 64-bit record field holds. -/
def cap : Nat := UInt64.size - 1

/-- An amount of chips, at most `cap`. -/
structure Chips where
  count : Nat
  le_cap : count ≤ cap
  deriving DecidableEq

namespace Chips

/-- The amount `n`, cut off at the cap. -/
def ofNat (n : Nat) : Chips := ⟨min n cap, Nat.min_le_right n cap⟩

instance : Zero Chips := ⟨⟨0, Nat.zero_le cap⟩⟩

instance : Inhabited Chips := ⟨0⟩

instance : Add Chips := ⟨fun a b => ofNat (a.count + b.count)⟩

instance : Sub Chips := ⟨fun a b => ⟨a.count - b.count, Nat.le_trans (Nat.sub_le ..) a.le_cap⟩⟩

instance : LE Chips := ⟨fun a b => a.count ≤ b.count⟩

instance : LT Chips := ⟨fun a b => a.count < b.count⟩

instance : Ord Chips := ⟨fun a b => compare a.count b.count⟩

instance (a b : Chips) : Decidable (a ≤ b) := inferInstanceAs (Decidable (a.count ≤ b.count))

instance (a b : Chips) : Decidable (a < b) := inferInstanceAs (Decidable (a.count < b.count))

instance : Min Chips := ⟨fun a b => if a ≤ b then a else b⟩

instance : ToString Chips := ⟨fun c => toString c.count⟩

/-- The amount `n` times over, cut off at the cap: one level of a pot, paid by `n` players. -/
def times (c : Chips) (n : Nat) : Chips := ofNat (c.count * n)

/-- One of `n` equal shares, and what is left over. Nobody to share with leaves it all. -/
def split (c : Chips) (n : Nat) : Chips × Chips :=
  if n = 0 then (0, c)
  else (⟨c.count / n, Nat.le_trans (Nat.div_le_self ..) c.le_cap⟩,
    ⟨c.count % n, Nat.le_trans (Nat.mod_le ..) c.le_cap⟩)

def sum (cs : List Chips) : Chips := cs.foldl (· + ·) 0

@[ext] theorem ext {a b : Chips} (same : a.count = b.count) : a = b := by
  cases a; cases b; simp_all

@[simp] theorem count_zero : (0 : Chips).count = 0 := rfl

@[simp] theorem count_ofNat (n : Nat) : (ofNat n).count = min n cap := rfl

@[simp] theorem count_add (a b : Chips) : (a + b).count = min (a.count + b.count) cap := rfl

@[simp] theorem count_sub (a b : Chips) : (a - b).count = a.count - b.count := rfl

@[simp] theorem count_times (c : Chips) (n : Nat) : (c.times n).count = min (c.count * n) cap := rfl

theorem count_min (a b : Chips) : (min a b).count = min a.count b.count := by
  show (if a ≤ b then a else b).count = min a.count b.count
  split
  · rename_i lower
    exact (Nat.min_eq_left lower).symm
  · rename_i higher
    exact (Nat.min_eq_right (Nat.le_of_not_le higher)).symm

theorem count_eq_zero {c : Chips} : c.count = 0 ↔ c = 0 :=
  ⟨fun h => ext h, fun h => h ▸ rfl⟩

theorem count_split (c : Chips) (n : Nat) :
    (c.split n).1.count * n + (c.split n).2.count = c.count := by
  unfold split
  split
  · simp
  · exact Nat.div_add_mod' c.count n

theorem count_foldl_add (cs : List Chips) (start : Chips) :
    (cs.foldl (· + ·) start).count = min (start.count + tally (cs.map count)) cap := by
  induction cs generalizing start with
  | nil => have := start.le_cap; simp; omega
  | cons c cs ih => simp only [List.foldl_cons, ih, count_add, List.map_cons, tally_cons]; omega

theorem count_sum (cs : List Chips) : (sum cs).count = min (tally (cs.map count)) cap := by
  simp [sum, count_foldl_add]

theorem count_sum_of_le {cs : List Chips} (fits : tally (cs.map count) ≤ cap) :
    (sum cs).count = tally (cs.map count) := by
  rw [count_sum]; omega

end Chips

end CardRoom
