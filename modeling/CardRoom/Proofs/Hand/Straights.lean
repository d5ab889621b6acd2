import Mathlib
import CardRoom.Hand.Five

/-! # Straights

A straight is said by its highest and its lowest rank, or by the ranks of the wheel, in whatever
order the cards lie. The program looks for it in ranks that go down.
-/

namespace CardRoom.Hand

/-- Different ranks whose highest is `top`, four above the lowest. -/
def IsRun (ranks : List Nat) (top : Nat) : Prop :=
  ranks.Nodup ∧ ranks.max? = some top ∧ ∃ low, ranks.min? = some low ∧ top - low = 4

/-- An ace with the four lowest ranks. -/
def IsWheel (ranks : List Nat) : Prop := ∀ r, r ∈ ranks ↔ r ∈ [Card.ace, 0, 1, 2, 3]

/-- A straight up to `top`. In the wheel the ace is low. -/
def IsStraight (ranks : List Nat) (top : Nat) : Prop :=
  IsRun ranks top ∨ IsWheel ranks ∧ top = 3

variable {ranks others : List Nat} {top : Nat}

theorem isStraight_perm (same : ranks.Perm others) :
    IsStraight ranks top ↔ IsStraight others top := by
  simp only [IsStraight, IsRun, IsWheel, same.nodup_iff, List.max?_eq_some_iff,
    List.min?_eq_some_iff, same.mem_iff]

theorem IsWheel.perm (wheel : IsWheel ranks) (five : ranks.length = 5) :
    ranks.Perm [Card.ace, 3, 2, 1, 0] := by
  have inside : [Card.ace, 3, 2, 1, 0] ⊆ ranks := by
    intro r member
    exact (wheel r).mpr (by simp at member ⊢; tauto)
  have within := List.subperm_of_subset (by decide) inside
  exact (within.perm_of_length_le five.le).symm

theorem IsStraight.nodup (straight : IsStraight ranks top) (five : ranks.length = 5) :
    ranks.Nodup := by
  cases straight with
  | inl run => exact run.1
  | inr wheel => exact (wheel.1.perm five).nodup_iff.mpr (by decide)

theorem isWheel_iff (five : ranks.length = 5) (down : ranks.Pairwise (· ≥ ·)) :
    IsWheel ranks ↔ ranks = [Card.ace, 3, 2, 1, 0] := by
  constructor
  · intro wheel
    exact List.Perm.eq_of_pairwise (fun a b _ _ above below => Nat.le_antisymm below above) down
      (by decide) (wheel.perm five)
  · rintro rfl r
    simp
    tauto

theorem isRun_iff {a b c low : Nat} (down : [top, a, b, c, low].Pairwise (· ≥ ·)) {n : Nat} :
    IsRun [top, a, b, c, low] n ↔
      n = top ∧ [top, a, b, c, low].Pairwise (· > ·) ∧ top = low + 4 := by
  have highest : [top, a, b, c, low].max? = some top := by
    rw [List.max?_eq_some_iff]
    simp at down ⊢
    omega
  have lowest : [top, a, b, c, low].min? = some low := by
    rw [List.min?_eq_some_iff]
    simp at down ⊢
    omega
  have strict : [top, a, b, c, low].Nodup ↔ [top, a, b, c, low].Pairwise (· > ·) := by
    constructor
    · intro distinct
      exact (down.and distinct).imp fun ⟨above, apart⟩ => Nat.lt_of_le_of_ne above apart.symm
    · intro falling
      exact falling.imp fun above => above.ne'
  rw [IsRun, highest, lowest, strict]
  constructor
  · rintro ⟨falling, same, bottom, low_is, apart⟩
    cases same
    cases low_is
    exact ⟨rfl, falling, by omega⟩
  · rintro ⟨rfl, falling, apart⟩
    exact ⟨falling, rfl, low, rfl, by omega⟩

/-- In ranks that go down, a straight is found exactly when there is one. -/
theorem straightTop?_eq_some_iff (five : ranks.length = 5) (down : ranks.Pairwise (· ≥ ·)) :
    straightTop? ranks = some top ↔ IsStraight ranks top := by
  match ranks, five with
  | [t, a, b, c, low], _ =>
      rw [IsStraight, isWheel_iff rfl down, isRun_iff down]
      unfold straightTop?
      by_cases wheel : [t, a, b, c, low] = [Card.ace, 3, 2, 1, 0]
      · -- The wheel reaches from the lowest rank to the highest, so it is not a run as well.
        have no_run : t ≠ low + 4 := by
          cases wheel
          decide
        simp [wheel, no_run, eq_comm]
      · have no_wheel : ¬ ([t, a, b, c, low] = [Card.ace, 3, 2, 1, 0] ∧ top = 3) :=
          fun is_wheel => wheel is_wheel.1
        rw [if_neg wheel, or_iff_left no_wheel]
        show (if _ then some t else none) = some top ↔ _
        rw [Option.ite_none_right_eq_some, Option.some.injEq]
        constructor
        · rintro ⟨run, rfl⟩
          exact ⟨rfl, run⟩
        · rintro ⟨rfl, run⟩
          exact ⟨run, rfl⟩

end CardRoom.Hand
