import Mathlib
import CardRoom.Payout.Remainder
import CardRoom.Proofs.Tallies

/-! # Rounding makes up its total

The places are ranked by what rounding down takes off them, and the missing units go round in
that order. Each place has one rank, so the rounded numbers make up the total, whatever kind of
numbers they are and however they compare. Where they compare in a total order, a larger
fractional part has the lower rank, and of equal ones the one at the earlier place.
-/

namespace CardRoom

theorem tally_mapIdx_add (g : Nat → Nat) (ns : List Nat) :
    tally (ns.mapIdx fun i n => n + g i) = tally ns + tally ((List.range ns.length).map g) := by
  induction ns using List.reverseRecOn with
  | nil => rfl
  | append_singleton ns n ih =>
      rw [List.mapIdx_concat, tally_append, ih, List.length_append, List.length_singleton,
        List.range_succ, List.map_append, tally_append, tally_append]
      simp only [List.map_cons, List.map_nil, tally_cons, tally_nil]
      omega

section

variable {R : Type} [Fractional R]

/-- What rounding takes off, with its place, in the order in which missing units are dealt. -/
def ranked (raw : List R) : List (R × Nat) :=
  (raw.map Fractional.fraction).zipIdx.mergeSort fun a b => Fractional.atLeast a.1 b.1

theorem ranked_perm (raw : List R) : (ranked raw).Perm (raw.map Fractional.fraction).zipIdx :=
  List.mergeSort_perm _ _

theorem remainderOrder_perm (raw : List R) : (remainderOrder raw).Perm (List.range raw.length) := by
  have places : (raw.map Fractional.fraction).zipIdx.map Prod.snd = List.range raw.length := by
    rw [List.zipIdx_map_snd, List.length_map, List.range_eq_range']
  exact places ▸ (ranked_perm raw).map Prod.snd

theorem nodup_remainderOrder (raw : List R) : (remainderOrder raw).Nodup :=
  (remainderOrder_perm raw).nodup_iff.mpr List.nodup_range

/-- The rank of a place, from zero. -/
def rankOf (raw : List R) (i : Nat) : Nat := (remainderOrder raw).idxOf i

theorem ranked_rankOf {raw : List R} {i : Nat} {v : R} (here : raw[i]? = some v) :
    (ranked raw)[rankOf raw i]? = some (Fractional.fraction v, i) := by
  have listed : i ∈ remainderOrder raw :=
    (remainderOrder_perm raw).mem_iff.mpr
      (List.mem_range.mpr (List.getElem?_eq_some_iff.mp here).1)
  have at_rank : ((ranked raw).map Prod.snd)[rankOf raw i]? = some i := by
    have bound := List.idxOf_lt_length_of_mem listed
    exact (List.getElem?_eq_getElem bound).trans (congrArg some (List.getElem_idxOf bound))
  rw [List.getElem?_map] at at_rank
  obtain ⟨⟨taken_off, place⟩, found, rfl⟩ := Option.map_eq_some_iff.mp at_rank
  have entry := (ranked_perm raw).mem_iff.mp (List.mem_of_getElem? found)
  rw [List.mem_zipIdx_iff_getElem?, List.getElem?_map, here] at entry
  rw [found]
  exact congrArg some (Prod.ext (Option.some.inj entry).symm rfl)

/-- Every rank is given once. -/
theorem ranks_perm (raw : List R) :
    ((List.range raw.length).map (rankOf raw)).Perm (List.range raw.length) := by
  have length : (remainderOrder raw).length = raw.length := by
    simpa using (remainderOrder_perm raw).length_eq
  have own : (remainderOrder raw).map (rankOf raw) = List.range raw.length := by
    apply List.ext_getElem
    · simpa using length
    · intro k first second
      rw [List.getElem_map, List.getElem_range, rankOf,
        (nodup_remainderOrder raw).idxOf_getElem k (by simpa using first)]
  exact own ▸ ((remainderOrder_perm raw).map (rankOf raw)).symm

/-! ## Who comes first -/

theorem pair_sublist {α : Type} {xs : List α} {i j : Nat} {x y : α} (first : xs[i]? = some x)
    (second : xs[j]? = some y) (earlier : i < j) : [x, y].Sublist xs := by
  refine List.cons_sublist_iff.mpr ⟨xs.take j, xs.drop j, (List.take_append_drop j xs).symm, ?_, ?_⟩
  · exact List.mem_of_getElem? (i := i) (by rw [List.getElem?_take_of_lt earlier, first])
  · exact List.singleton_sublist.mpr
      (List.mem_of_getElem? (i := 0) (by rw [List.getElem?_drop, Nat.add_zero, second]))

theorem idxOf_lt_of_pair_sublist {xs : List Nat} {i j : Nat} (distinct : xs.Nodup)
    (pair : [i, j].Sublist xs) : xs.idxOf i < xs.idxOf j := by
  obtain ⟨front, back, rfl, in_front, rest⟩ := List.cons_sublist_iff.mp pair
  have apart : j ∉ front := fun member =>
    (List.nodup_append.mp distinct).2.2 j member j (List.singleton_sublist.mp rest) rfl
  rw [List.idxOf_append_of_mem in_front, List.idxOf_append_of_notMem apart]
  have bound := List.idxOf_lt_length_of_mem in_front
  omega

section

variable (trans : ∀ a b c : R, Fractional.atLeast a b = true → Fractional.atLeast b c = true →
    Fractional.atLeast a c = true)
  (total : ∀ a b : R, (Fractional.atLeast a b || Fractional.atLeast b a) = true)
include trans total

theorem ranked_pairwise (raw : List R) :
    (ranked raw).Pairwise fun a b => Fractional.atLeast a.1 b.1 = true :=
  List.pairwise_mergeSort (fun a b c => trans a.1 b.1 c.1) (fun a b => total a.1 b.1) _

variable {raw : List R} {i j : Nat} {v w : R} (here : raw[i]? = some v) (there : raw[j]? = some w)
include here there

/-- A larger fractional part comes first, and of equal ones the one at the earlier place. -/
theorem rankOf_lt
    (ahead : Fractional.atLeast (Fractional.fraction v) (Fractional.fraction w) = true)
    (tie : Fractional.atLeast (Fractional.fraction w) (Fractional.fraction v) = true → i < j) :
    rankOf raw i < rankOf raw j := by
  by_cases earlier : i < j
  · -- The order is stable, so places in their order stay so unless the later one is ahead.
    have pair : [(Fractional.fraction v, i), (Fractional.fraction w, j)].Sublist
        (raw.map Fractional.fraction).zipIdx := by
      refine pair_sublist (i := i) (j := j) ?_ ?_ earlier
      · rw [List.getElem?_zipIdx, List.getElem?_map, here]
        simp
      · rw [List.getElem?_zipIdx, List.getElem?_map, there]
        simp
    have kept : [(Fractional.fraction v, i), (Fractional.fraction w, j)].Sublist (ranked raw) :=
      List.pair_sublist_mergeSort (fun a b c => trans a.1 b.1 c.1) (fun a b => total a.1 b.1)
        ahead pair
    exact idxOf_lt_of_pair_sublist (nodup_remainderOrder raw) (kept.map Prod.snd)
  · by_contra behind
    obtain ⟨first_bound, first⟩ := List.getElem?_eq_some_iff.mp (ranked_rankOf here)
    obtain ⟨second_bound, second⟩ := List.getElem?_eq_some_iff.mp (ranked_rankOf there)
    rcases (Nat.not_lt.mp behind).lt_or_eq with before | same
    · have sorted := List.pairwise_iff_getElem.mp (ranked_pairwise trans total raw) _ _
        second_bound first_bound before
      rw [first, second] at sorted
      exact earlier (tie sorted)
    · have entry := (ranked_rankOf here).symm.trans (same ▸ ranked_rankOf there)
      obtain ⟨equal, rfl⟩ := Prod.mk.inj (Option.some.inj entry)
      exact earlier (tie (equal ▸ ahead))

/-- Ranks tell the order of the fractional parts, and of the places where these are equal. -/
theorem rankOf_lt_iff : rankOf raw i < rankOf raw j ↔
    Fractional.atLeast (Fractional.fraction v) (Fractional.fraction w) = true ∧
      (Fractional.atLeast (Fractional.fraction w) (Fractional.fraction v) = true → i < j) := by
  refine ⟨fun first => ?_, fun ⟨ahead, tie⟩ => rankOf_lt trans total here there ahead tie⟩
  by_contra failed
  have apart : i ≠ j := by
    rintro rfl
    exact Nat.lt_irrefl _ first
  have other : rankOf raw j < rankOf raw i := by
    apply rankOf_lt trans total there here
    · have either := total (Fractional.fraction v) (Fractional.fraction w)
      grind
    · grind
  exact Nat.lt_asymm first other

end

/-! ## What the places get -/

theorem topUp_anti (missing n : Nat) {first second : Nat} (le : first ≤ second) :
    topUp missing n second ≤ topUp missing n first := by
  unfold topUp
  split <;> split <;> omega

theorem topUp_le_succ (missing n first second : Nat) :
    topUp missing n first ≤ topUp missing n second + 1 := by
  unfold topUp
  split <;> split <;> omega

/-- How many units rounding down leaves of a total. -/
def missing (raw : List R) (total : Nat) : Nat := total - tally (raw.map Fractional.whole)

theorem getElem?_largestRemainder (raw : List R) (total i : Nat) :
    (largestRemainder raw total)[i]? = raw[i]?.map fun v =>
      Fractional.whole v + topUp (missing raw total) raw.length (rankOf raw i) := by
  simp only [largestRemainder, List.getElem?_mapIdx, List.getElem?_map, Option.map_map]
  rfl

@[simp] theorem length_largestRemainder (raw : List R) (total : Nat) :
    (largestRemainder raw total).length = raw.length := by
  simp [largestRemainder]

/-- Exactly what is missing is dealt. -/
theorem tally_largestRemainder {raw : List R} (nonempty : raw ≠ []) (total : Nat) :
    tally (largestRemainder raw total) =
      tally (raw.map Fractional.whole) + missing raw total := by
  have dealt : tally ((List.range raw.length).map fun i =>
      topUp (missing raw total) raw.length (rankOf raw i)) = missing raw total := by
    have ranks := (ranks_perm raw).map (topUp (missing raw total) raw.length)
    rw [List.map_map] at ranks
    exact (tally_perm ranks).trans (tally_topUp _ (List.length_pos_of_ne_nil nonempty))
  rw [largestRemainder, tally_mapIdx_add, List.length_map]
  exact congrArg _ dealt

end

end CardRoom
