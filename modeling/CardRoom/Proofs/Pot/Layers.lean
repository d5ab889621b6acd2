import Mathlib
import CardRoom.Pot.Layer
import CardRoom.Proofs.Tallies

/-! # How layers add up

Every step from one distinct amount to the next is a layer that all who reached it paid in
full. What everyone put in up to some level therefore grows from layer to layer by exactly the
amount of the layer, and the layers that list a player hold what everyone put in up to that
player's own amount.
-/

namespace CardRoom

theorem Chips.le_iff {a b : Chips} : a ≤ b ↔ a.count ≤ b.count := Iff.rfl

theorem Chips.lt_iff {a b : Chips} : a < b ↔ a.count < b.count := Iff.rfl

theorem Chips.count_inj {a b : Chips} : a.count = b.count ↔ a = b :=
  ⟨Chips.ext, congrArg Chips.count⟩

/-- Sorted amounts go up. -/
theorem Chips.pairwise_mergeSort (amounts : List Chips) :
    (amounts.mergeSort fun a b => decide (a ≤ b)).Pairwise (· ≤ ·) := by
  have sorted := @List.pairwise_mergeSort _ (fun a b : Chips => decide (a ≤ b))
    (fun a b c => by simpa [Chips.le_iff] using Nat.le_trans)
    (fun a b => by simpa [Chips.le_iff] using Nat.le_total a.count b.count) amounts
  exact sorted.imp fun ordered => of_decide_eq_true ordered

theorem Chips.mergeSort_eq_of_perm {first second : List Chips} (same : first.Perm second) :
    (first.mergeSort fun a b => decide (a ≤ b)) = second.mergeSort fun a b => decide (a ≤ b) := by
  refine List.Perm.eq_of_pairwise (fun a b _ _ le ge => Chips.ext (Nat.le_antisymm le ge))
    (Chips.pairwise_mergeSort _) (Chips.pairwise_mergeSort _) ?_
  exact ((List.mergeSort_perm _ _).trans same).trans (List.mergeSort_perm _ _).symm

namespace Contributions

/-- What a player put in, nothing if the player is not listed. -/
def stakeOf (contributions : Contributions) (id : PlayerId) : Chips :=
  ((contributions.find? (·.1 = id)).map Prod.snd).getD 0

/-- What all put in together up to a level, never cut off. -/
def upTo (contributions : Contributions) (level : Nat) : Nat :=
  tally (contributions.map fun e => min e.2.count level)

variable {contributions : Contributions}

theorem upTo_le (contributions : Contributions) (level : Nat) :
    contributions.upTo level ≤ tally (contributions.map (·.2.count)) :=
  tally_le_tally fun _ _ => Nat.min_le_left _ _

theorem upTo_zero (contributions : Contributions) : contributions.upTo 0 = 0 := by
  simp only [upTo, Nat.min_zero, tally_const, Nat.zero_mul]

theorem stakeOf_of_mem (distinct : (contributions.map Prod.fst).Nodup) {entry : PlayerId × Chips}
    (member : entry ∈ contributions) : contributions.stakeOf entry.1 = entry.2 := by
  induction contributions with
  | nil => cases member
  | cons first rest ih =>
      rw [List.map_cons, List.nodup_cons] at distinct
      rcases List.mem_cons.mp member with rfl | later
      · simp [stakeOf]
      · have apart : first.1 ≠ entry.1 := fun same =>
          distinct.1 (same ▸ List.mem_map_of_mem later)
        simpa [stakeOf, apart] using ih distinct.2 later

theorem stakeOf_of_absent {id : PlayerId} (absent : id ∉ contributions.map Prod.fst) :
    contributions.stakeOf id = 0 := by
  have nobody : contributions.find? (·.1 = id) = none := by
    refine List.find?_eq_none.mpr fun e member same => absent ?_
    simpa [← (show e.1 = id by simpa using same)] using List.mem_map_of_mem (f := Prod.fst) member
  rw [stakeOf, nobody]
  rfl

theorem mem_of_stakeOf_ne_zero {id : PlayerId} (filled : contributions.stakeOf id ≠ 0) :
    (id, contributions.stakeOf id) ∈ contributions := by
  unfold stakeOf at filled ⊢
  cases found : contributions.find? (·.1 = id) with
  | none => simp [found] at filled
  | some entry =>
      have same : entry.1 = id := by simpa using List.find?_some found
      subst same
      exact List.mem_of_find?_eq_some found

end Contributions

open Contributions

namespace SidePot

variable {contributions : Contributions} {below level : Chips}

/-! ## One layer -/

theorem mem_players_between (distinct : (contributions.map Prod.fst).Nodup) (above : below < level)
    {id : PlayerId} :
    id ∈ (between contributions below level).players ↔ level ≤ contributions.stakeOf id := by
  simp only [between, List.mem_map, List.mem_filter, decide_eq_true_eq, Prod.exists,
    exists_and_right, exists_eq_right]
  constructor
  · rintro ⟨c, member, reached⟩
    rwa [stakeOf_of_mem distinct member]
  · intro reached
    refine ⟨contributions.stakeOf id, mem_of_stakeOf_ne_zero ?_, reached⟩
    rintro nothing
    rw [Chips.le_iff, nothing] at reached
    rw [Chips.lt_iff] at above
    exact absurd reached (by simp; omega)

/-- A layer without an amount inside it holds what was put in from its lower to its upper level. -/
theorem upTo_between (fits : tally (contributions.map (·.2.count)) ≤ cap) (above : below < level)
    (gap : ∀ e ∈ contributions, e.2 ≤ below ∨ level ≤ e.2) :
    (between contributions below level).amount.count + contributions.upTo below.count =
      contributions.upTo level.count := by
  have exactly : (level.count - below.count) *
      (contributions.filter fun e => decide (level ≤ e.2)).length +
        contributions.upTo below.count = contributions.upTo level.count := by
    clear fits
    induction contributions with
    | nil => rfl
    | cons e rest ih =>
        have later := ih fun d member => gap d (List.mem_cons_of_mem e member)
        simp only [upTo, List.map_cons, tally_cons] at later ⊢
        rw [Chips.lt_iff] at above
        by_cases reached : level ≤ e.2
        · rw [List.filter_cons_of_pos (by simpa using reached), List.length_cons, Nat.mul_succ]
          rw [Chips.le_iff] at reached
          omega
        · have lower := (gap e List.mem_cons_self).resolve_right reached
          rw [List.filter_cons_of_neg (by simpa using reached)]
          rw [Chips.le_iff] at lower
          omega
  have bound := contributions.upTo_le level.count
  have amount : (between contributions below level).amount.count =
      min ((level.count - below.count) *
        (contributions.filter fun e => decide (level ≤ e.2)).length) cap := by
    simp [between]
  omega

/-! ## All layers -/

/-- What is still to be cut into layers above a level: the amounts come in ascending order, and
they are all the amounts that somebody put in above the level. -/
structure Remaining (contributions : Contributions) (below : Chips) (amounts : List Chips) :
    Prop where
  ascending : (below :: amounts).Pairwise (· ≤ ·)
  complete : ∀ e ∈ contributions, e.2 ≤ below ∨ e.2 ∈ amounts
  sound : ∀ a ∈ amounts, ∃ e ∈ contributions, e.2 = a

namespace Remaining

variable {amounts : List Chips}

theorem below_le (remaining : Remaining contributions below (level :: amounts)) : below ≤ level :=
  List.rel_of_pairwise_cons remaining.ascending List.mem_cons_self

theorem below_lt (remaining : Remaining contributions below (level :: amounts))
    (apart : level ≠ below) : below < level := by
  have le := Chips.le_iff.mp remaining.below_le
  have differ := mt Chips.count_inj.mp apart
  rw [Chips.lt_iff]
  omega

theorem tail (remaining : Remaining contributions below (level :: amounts)) :
    Remaining contributions level amounts where
  ascending := (List.pairwise_cons.mp remaining.ascending).2
  complete := by
    intro e member
    rcases remaining.complete e member with lower | listed
    · exact .inl (Nat.le_trans lower remaining.below_le)
    · rcases List.mem_cons.mp listed with same | later
      · exact .inl (Nat.le_of_eq (congrArg Chips.count same))
      · exact .inr later
  sound := fun a later => remaining.sound a (List.mem_cons_of_mem level later)

theorem gap (remaining : Remaining contributions below (level :: amounts)) :
    ∀ e ∈ contributions, e.2 ≤ below ∨ level ≤ e.2 := by
  intro e member
  apply (remaining.complete e member).imp_right
  intro listed
  rcases List.mem_cons.mp listed with same | later
  · exact Nat.le_of_eq (congrArg Chips.count same.symm)
  · exact List.rel_of_pairwise_cons remaining.tail.ascending later

theorem start (contributions : Contributions) :
    Remaining contributions 0
      (((contributions.map Prod.snd).filter (· ≠ 0)).mergeSort fun a b => decide (a ≤ b)) where
  ascending :=
    List.pairwise_cons.mpr ⟨fun a _ => Nat.zero_le a.count, Chips.pairwise_mergeSort _⟩
  complete := by
    intro e member
    by_cases nothing : e.2 = 0
    · exact .inl (Nat.le_of_eq (congrArg Chips.count nothing))
    · exact .inr (List.mem_mergeSort.mpr
        (List.mem_filter.mpr ⟨List.mem_map_of_mem member, by simpa using nothing⟩))
  sound := by
    intro a listed
    obtain ⟨listed, -⟩ := List.mem_filter.mp (List.mem_mergeSort.mp listed)
    simpa using List.mem_map.mp listed

end Remaining

variable {amounts : List Chips}

theorem above_eq_nil (flat : ∀ a ∈ amounts, a = below) : above contributions below amounts = [] := by
  induction amounts with
  | nil => rfl
  | cons a rest ih =>
      rw [above, if_pos (flat a List.mem_cons_self)]
      exact ih fun b later => flat b (List.mem_cons_of_mem a later)

theorem exists_of_mem_above (remaining : Remaining contributions below amounts) {layer : SidePot}
    (member : layer ∈ above contributions below amounts) :
    ∃ lower level, layer = between contributions lower level ∧ below ≤ lower ∧ lower < level ∧
      (∃ e ∈ contributions, e.2 = level) ∧ ∀ e ∈ contributions, e.2 ≤ lower ∨ level ≤ e.2 := by
  induction amounts generalizing below with
  | nil => cases member
  | cons level rest ih =>
      unfold above at member
      split at member
      · rename_i same
        exact ih (same ▸ remaining.tail) member
      · rename_i apart
        have step := remaining.below_lt apart
        rcases List.mem_cons.mp member with rfl | later
        · exact ⟨below, level, rfl, Nat.le_refl _, step, remaining.sound level List.mem_cons_self,
            remaining.gap⟩
        · obtain ⟨lower, upper, shape, le, rest⟩ := ih remaining.tail later
          exact ⟨lower, upper, shape, Nat.le_trans (Nat.le_of_lt step) le, rest⟩

theorem filter_above_eq_nil (distinct : (contributions.map Prod.fst).Nodup)
    (remaining : Remaining contributions below amounts) {id : PlayerId}
    (low : contributions.stakeOf id ≤ below) :
    (above contributions below amounts).filter (id ∈ ·.players) = [] := by
  apply List.filter_eq_nil_iff.mpr
  intro layer member listed
  obtain ⟨lower, level, rfl, le, step, -⟩ := exists_of_mem_above remaining member
  have reached := (mem_players_between distinct step).mp (by simpa using listed)
  rw [Chips.le_iff] at low le reached
  rw [Chips.lt_iff] at step
  omega

theorem tally_above (fits : tally (contributions.map (·.2.count)) ≤ cap)
    (distinct : (contributions.map Prod.fst).Nodup)
    (remaining : Remaining contributions below amounts) {id : PlayerId}
    (reached : contributions.stakeOf id = below ∨ contributions.stakeOf id ∈ amounts) :
    tally (((above contributions below amounts).filter (id ∈ ·.players)).map (·.amount.count)) +
      contributions.upTo below.count = contributions.upTo (contributions.stakeOf id).count := by
  -- The sum telescopes along the amounts up to the player's own, above which he is on no list.
  induction amounts generalizing below with
  | nil =>
      obtain same : contributions.stakeOf id = below := by simpa using reached
      rw [same]
      exact Nat.zero_add _
  | cons level rest ih =>
      rcases reached with same | listed
      · rw [filter_above_eq_nil distinct remaining (Nat.le_of_eq (congrArg Chips.count same)), same]
        exact Nat.zero_add _
      · have later : contributions.stakeOf id = level ∨ contributions.stakeOf id ∈ rest := by
          simpa using listed
        have sum := ih remaining.tail later
        unfold above
        split
        · rename_i same
          subst same
          exact sum
        · rename_i apart
          have step := remaining.below_lt apart
          have layer := upTo_between fits step remaining.gap
          have high : level ≤ contributions.stakeOf id := by
            rcases later with same | later
            · exact Nat.le_of_eq (congrArg Chips.count same.symm)
            · exact List.rel_of_pairwise_cons remaining.tail.ascending later
          rw [List.filter_cons_of_pos (by simpa [mem_players_between distinct step] using high),
            List.map_cons, tally_cons]
          omega

theorem stakeOf_mem_amounts (contributions : Contributions) (id : PlayerId) :
    contributions.stakeOf id = 0 ∨ contributions.stakeOf id ∈
      ((contributions.map Prod.snd).filter (· ≠ 0)).mergeSort fun a b => decide (a ≤ b) := by
  by_cases nothing : contributions.stakeOf id = 0
  · exact .inl nothing
  · refine .inr (List.mem_mergeSort.mpr (List.mem_filter.mpr ⟨?_, by simpa using nothing⟩))
    exact List.mem_map_of_mem (f := Prod.snd) (mem_of_stakeOf_ne_zero nothing)

/-- The layers of a pot that list a player hold what everyone put in up to that player's amount. -/
theorem tally_layers (fits : tally (contributions.map (·.2.count)) ≤ cap)
    (distinct : (contributions.map Prod.fst).Nodup) (id : PlayerId) :
    tally (((layers contributions).filter (id ∈ ·.players)).map (·.amount.count)) =
      contributions.upTo (contributions.stakeOf id).count := by
  have sum := tally_above fits distinct (Remaining.start contributions)
    (stakeOf_mem_amounts contributions id)
  rw [Chips.count_zero, contributions.upTo_zero] at sum
  exact sum

theorem tally_amounts_above (fits : tally (contributions.map (·.2.count)) ≤ cap)
    (remaining : Remaining contributions below amounts) :
    tally ((above contributions below amounts).map (·.amount.count)) +
      contributions.upTo below.count = tally (contributions.map (·.2.count)) := by
  induction amounts generalizing below with
  | nil =>
      have low : ∀ e ∈ contributions, min e.2.count below.count = e.2.count := fun e member =>
        Nat.min_eq_left ((remaining.complete e member).resolve_right List.not_mem_nil)
      rw [above, List.map_nil, tally_nil, Nat.zero_add, upTo, List.map_congr_left low]
  | cons level rest ih =>
      have sum := ih remaining.tail
      unfold above
      split
      · rename_i same
        subst same
        exact sum
      · rename_i apart
        have layer := upTo_between fits (remaining.below_lt apart) remaining.gap
        rw [List.map_cons, tally_cons]
        omega

/-- All layers together hold what everyone put in. -/
theorem tally_amounts_layers (fits : tally (contributions.map (·.2.count)) ≤ cap) :
    tally ((layers contributions).map (·.amount.count)) =
      tally (contributions.map (·.2.count)) := by
  have sum := tally_amounts_above fits (Remaining.start contributions)
  rw [Chips.count_zero, contributions.upTo_zero] at sum
  exact sum

end SidePot

end CardRoom
