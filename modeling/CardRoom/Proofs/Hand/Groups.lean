import Mathlib
import CardRoom.Hand.Five

/-! # Groups of equal ranks

Each rank of a hand makes one group, whose size is how often it occurs, and the two groups that
come first are the largest. So what a rule asks about ranks that repeat is read off the first two
sizes.
-/

namespace CardRoom.Hand

variable {ranks : List Nat}

theorem nodup_eraseDups (ranks : List Nat) : ranks.eraseDups.Nodup := by
  induction size : ranks.length using Nat.strong_induction_on generalizing ranks with
  | _ n ih =>
      cases ranks with
      | nil => simp
      | cons r ranks =>
          rw [List.eraseDups_cons, List.nodup_cons]
          constructor
          · simp [List.mem_eraseDups]
          · apply ih _ _ _ rfl
            rw [← size]
            exact Nat.lt_succ_of_le (List.length_filter_le ..)

/-! ## The groups of ranks -/

theorem groups_perm (ranks : List Nat) :
    (groups ranks).Perm (ranks.eraseDups.map fun r => ⟨r, ranks.count r⟩) :=
  List.mergeSort_perm _ _

theorem mem_groups {g : Group} :
    g ∈ groups ranks ↔ g.rank ∈ ranks ∧ g.size = ranks.count g.rank := by
  rw [(groups_perm ranks).mem_iff, List.mem_map]
  constructor
  · rintro ⟨r, listed, rfl⟩
    exact ⟨List.mem_eraseDups.mp listed, rfl⟩
  · rintro ⟨listed, size⟩
    exact ⟨g.rank, List.mem_eraseDups.mpr listed, by rw [← size]⟩

theorem groupRanks_perm (ranks : List Nat) :
    ((groups ranks).map Group.rank).Perm ranks.eraseDups := by
  have same := (groups_perm ranks).map Group.rank
  rw [List.map_map] at same
  exact same.trans (List.Perm.of_eq (List.map_id _))

@[simp] theorem mem_groupRanks {r : Nat} : r ∈ (groups ranks).map Group.rank ↔ r ∈ ranks := by
  rw [(groupRanks_perm ranks).mem_iff, List.mem_eraseDups]

theorem nodup_groupRanks (ranks : List Nat) : ((groups ranks).map Group.rank).Nodup :=
  (groupRanks_perm ranks).nodup_iff.mpr (nodup_eraseDups ranks)

theorem sum_sizes (ranks : List Nat) : ((groups ranks).map Group.size).sum = ranks.length := by
  have each : ranks.eraseDups.Perm ranks.dedup :=
    (List.perm_ext_iff_of_nodup (nodup_eraseDups ranks) ranks.nodup_dedup).mpr fun r => by
      rw [List.mem_eraseDups, List.mem_dedup]
  rw [((groups_perm ranks).map Group.size).sum_eq, List.map_map, (each.map _).sum_eq]
  exact List.sum_map_count_dedup_eq_length ranks

theorem groups_ordered (ranks : List Nat) :
    (groups ranks).Pairwise fun g h => g.precedes h = true := by
  refine List.pairwise_mergeSort ?_ ?_ _
  · intro a b c first second
    simp only [Group.precedes, Bool.or_eq_true, Bool.and_eq_true, decide_eq_true_eq,
      beq_iff_eq] at *
    omega
  · intro a b
    simp only [Group.precedes, Bool.or_eq_true, Bool.and_eq_true, decide_eq_true_eq, beq_iff_eq]
    omega

theorem size_le_of_precedes {g h : Group} (before : g.precedes h = true) : h.size ≤ g.size := by
  simp only [Group.precedes, Bool.or_eq_true, Bool.and_eq_true, decide_eq_true_eq,
    beq_iff_eq] at before
  omega

/-- More frequent ranks come first, and higher ones among those that are equally frequent. -/
theorem groupRanks_ordered (ranks : List Nat) :
    ((groups ranks).map Group.rank).Pairwise fun r s =>
      ranks.count s < ranks.count r ∨ ranks.count r = ranks.count s ∧ s < r := by
  have distinct := List.pairwise_map.mp (nodup_groupRanks ranks)
  refine List.pairwise_map.mpr (((groups_ordered ranks).and distinct).imp_of_mem ?_)
  rintro g h first second ⟨before, apart⟩
  have first_size := (mem_groups.mp first).2
  have second_size := (mem_groups.mp second).2
  simp only [Group.precedes, Bool.or_eq_true, Bool.and_eq_true, decide_eq_true_eq,
    beq_iff_eq] at before
  omega

/-! ## The largest groups -/

def largest (ranks : List Nat) : Nat := ((groups ranks).map Group.size).getD 0 0

def second (ranks : List Nat) : Nat := ((groups ranks).map Group.size).getD 1 0

theorem count_le_first {g : Group} {gs : List Group} (shape : groups ranks = g :: gs) {r : Nat}
    (listed : r ∈ ranks) : ranks.count r ≤ g.size := by
  have ordered := groups_ordered ranks
  have group : ⟨r, ranks.count r⟩ ∈ groups ranks := mem_groups.mpr ⟨listed, rfl⟩
  rw [shape] at ordered group
  rcases List.mem_cons.mp group with rfl | later
  · exact le_rfl
  · exact size_le_of_precedes ((List.pairwise_cons.mp ordered).1 _ later)

theorem count_le_next {g h : Group} {gs : List Group} (shape : groups ranks = g :: h :: gs)
    {r : Nat} (listed : r ∈ ranks) (other : r ≠ g.rank) : ranks.count r ≤ h.size := by
  have ordered := groups_ordered ranks
  have group : ⟨r, ranks.count r⟩ ∈ groups ranks := mem_groups.mpr ⟨listed, rfl⟩
  rw [shape] at ordered group
  rcases List.mem_cons.mp group with rfl | later
  · exact absurd rfl other
  · rcases List.mem_cons.mp later with rfl | later
    · exact le_rfl
    · exact size_le_of_precedes
        ((List.pairwise_cons.mp (List.pairwise_cons.mp ordered).2).1 _ later)

theorem size_eq {g : Group} {gs : List Group} (shape : groups ranks = gs) (listed : g ∈ gs) :
    g.size = ranks.count g.rank :=
  (mem_groups.mp (shape ▸ listed)).2

theorem exists_repeated_iff {n : Nat} (positive : 0 < n) :
    (∃ r, n ≤ ranks.count r) ↔ n ≤ largest ranks := by
  unfold largest
  constructor
  · rintro ⟨r, often⟩
    have listed : r ∈ ranks := List.count_pos_iff.mp (by omega)
    cases shape : groups ranks with
    | nil => simpa [shape] using mem_groupRanks.mpr listed
    | cons g gs => exact often.trans (count_le_first shape listed)
  · intro large
    cases shape : groups ranks with
    | nil => simp [shape] at large; omega
    | cons g gs =>
        refine ⟨g.rank, ?_⟩
        rw [← size_eq shape List.mem_cons_self]
        simpa [shape] using large

theorem le_second {m n r s : Nat} (positive : 0 < n) (le : n ≤ m) (apart : r ≠ s)
    (often : m ≤ ranks.count r) (also_often : n ≤ ranks.count s) : n ≤ second ranks := by
  have listed : r ∈ ranks := List.count_pos_iff.mp (by omega)
  have also_listed : s ∈ ranks := List.count_pos_iff.mp (by omega)
  have group := mem_groupRanks.mpr listed
  have also_group := mem_groupRanks.mpr also_listed
  unfold second
  match shape : groups ranks with
  | [] => simp [shape] at group
  | [g] =>
      simp only [shape, List.map_cons, List.map_nil, List.mem_singleton] at group also_group
      exact absurd (group.trans also_group.symm) apart
  | g :: h :: gs =>
      show n ≤ h.size
      -- The first group has only one of the two ranks, so the other is in a later group.
      by_cases leads : r = g.rank
      · have other : s ≠ g.rank := fun same => apart (leads.trans same.symm)
        exact also_often.trans (count_le_next shape also_listed other)
      · exact le.trans (often.trans (count_le_next shape listed leads))

theorem exists_two_of_le_second {m n : Nat} (positive : 0 < n) (large : m ≤ largest ranks)
    (also_large : n ≤ second ranks) :
    ∃ r s, r ≠ s ∧ m ≤ ranks.count r ∧ n ≤ ranks.count s := by
  unfold largest at large
  unfold second at also_large
  match shape : groups ranks with
  | [] => simp [shape] at also_large; omega
  | [g] => simp [shape] at also_large; omega
  | g :: h :: gs =>
      have distinct := nodup_groupRanks ranks
      refine ⟨g.rank, h.rank, ?_, ?_, ?_⟩
      · simp only [shape, List.map_cons, List.nodup_cons, List.mem_cons, not_or] at distinct
        exact distinct.1.1
      · rw [← size_eq shape List.mem_cons_self]
        simpa [shape] using large
      · rw [← size_eq shape (List.mem_cons_of_mem _ List.mem_cons_self)]
        simpa [shape] using also_large

theorem exists_two_repeated_iff {m n : Nat} (positive : 0 < n) (le : n ≤ m) :
    (∃ r s, r ≠ s ∧ m ≤ ranks.count r ∧ n ≤ ranks.count s) ↔
      m ≤ largest ranks ∧ n ≤ second ranks := by
  constructor
  · rintro ⟨r, s, apart, often, also_often⟩
    constructor
    · exact (exists_repeated_iff (positive.trans_le le)).mp ⟨r, often⟩
    · exact le_second positive le apart often also_often
  · intro sizes
    exact exists_two_of_le_second positive sizes.1 sizes.2

theorem second_le_largest (ranks : List Nat) : second ranks ≤ largest ranks := by
  have ordered := groups_ordered ranks
  unfold second largest
  match shape : groups ranks with
  | [] => simp
  | [g] => simp
  | g :: h :: gs =>
      rw [shape] at ordered
      exact size_le_of_precedes ((List.pairwise_cons.mp ordered).1 h List.mem_cons_self)

theorem largest_add_second_le (ranks : List Nat) :
    largest ranks + second ranks ≤ ranks.length := by
  rw [← sum_sizes, largest, second]
  match (groups ranks).map Group.size with
  | [] => simp
  | [a] => simp
  | a :: b :: sizes => simp

theorem largest_le_one_iff : largest ranks ≤ 1 ↔ ranks.Nodup := by
  rw [List.nodup_iff_count_le_one, ← not_lt, ← Nat.succ_le_iff, ← exists_repeated_iff (by omega)]
  simp

end CardRoom.Hand
