import Mathlib
import CardRoom.Proofs.Payout.Division

/-! # Prospects

What a player expects depends on the sizes of his stack and of the others', not on who sits where.
Written so, the recursion over the players is one over the prizes. With prizes that go down, nobody
gains when a rival leaves with the highest prize, and so more chips of one's own raise what one
expects and more chips of a rival lower it.
-/

namespace CardRoom.Icm

/-- What the turns of all rivals come to: each leaves the others, and weighs by his stack. -/
def turns (left : Multiset ℚ → ℚ) (rivals : Multiset ℚ) : ℚ :=
  (rivals.map fun rival => rival * left (rivals.erase rival)).sum

/-- What a player with a stack of his own expects against rivals, wherever they sit. -/
def prospect (own : ℚ) : List ℚ → Multiset ℚ → ℚ
  | [], _ => 0
  | prize :: rest, rivals =>
    (own * prize + turns (prospect own rest) rivals) / (own + rivals.sum)

/-- Prizes that go down, and not below nothing. -/
structure Falling (prizes : List ℚ) : Prop where
  down : prizes.Pairwise (· ≥ ·)
  nonneg : ∀ p ∈ prizes, 0 ≤ p

namespace Falling

variable {prize : ℚ} {rest : List ℚ} (falling : Falling (prize :: rest))
include falling

theorem tail : Falling rest :=
  ⟨falling.down.of_cons, fun p member => falling.nonneg p (List.mem_cons_of_mem prize member)⟩

theorem head_nonneg : 0 ≤ prize := falling.nonneg prize List.mem_cons_self

theorem le_head : ∀ p ∈ rest, p ≤ prize := fun _ member =>
  List.rel_of_pairwise_cons falling.down member

end Falling

theorem Falling.cast {prizes : List Nat} (down : prizes.Pairwise (· ≥ ·)) :
    Falling (prizes.map Nat.cast) where
  down := List.pairwise_map.mpr (down.imp Nat.cast_le.mpr)
  nonneg := by
    intro p member
    obtain ⟨n, -, rfl⟩ := List.mem_map.mp member
    exact Nat.cast_nonneg n

/-! ## The turns of the rivals -/

section

variable {rivals : Multiset ℚ} {left other : Multiset ℚ → ℚ}

theorem turns_cons (left : Multiset ℚ → ℚ) (rival : ℚ) (rivals : Multiset ℚ) :
    turns left (rival ::ₘ rivals) =
      rival * left rivals + turns (fun others => left (rival ::ₘ others)) rivals := by
  unfold turns
  rw [Multiset.map_cons, Multiset.sum_cons, Multiset.erase_cons_head]
  congr 2
  refine Multiset.map_congr rfl fun r member => ?_
  rw [Multiset.erase_cons_tail_of_mem member]

theorem turns_le (positive : ∀ r ∈ rivals, 0 < r)
    (le : ∀ r ∈ rivals, left (rivals.erase r) ≤ other (rivals.erase r)) :
    turns left rivals ≤ turns other rivals :=
  Multiset.sum_map_le_sum_map _ _ fun r member =>
    mul_le_mul_of_nonneg_left (le r member) (positive r member).le

theorem turns_const (c : ℚ) (rivals : Multiset ℚ) : turns (fun _ => c) rivals = rivals.sum * c := by
  rw [turns, Multiset.sum_map_mul_right, Multiset.map_id']

end

/-! ## Who gains by what -/

section

variable {own more rival prize high : ℚ} {prizes rest : List ℚ} {rivals : Multiset ℚ}

theorem all_pos (own_pos : 0 < own) (positive : ∀ r ∈ rivals, 0 < r) : 0 < own + rivals.sum :=
  add_pos_of_pos_of_nonneg own_pos (Multiset.sum_nonneg fun r member => (positive r member).le)

theorem positive_erase (positive : ∀ r ∈ rivals, 0 < r) (gone : ℚ) :
    ∀ r ∈ rivals.erase gone, 0 < r := fun r member =>
  positive r (Multiset.mem_of_mem_erase member)

theorem positive_cons (rival_pos : 0 < rival) (positive : ∀ r ∈ rivals, 0 < r) :
    ∀ r ∈ rival ::ₘ rivals, 0 < r := fun r member =>
  (Multiset.mem_cons.mp member).elim (fun same => same ▸ rival_pos) (positive r)

theorem prospect_cons (own prize : ℚ) (rest : List ℚ) (rivals : Multiset ℚ) :
    prospect own (prize :: rest) rivals =
      (own * prize + turns (prospect own rest) rivals) / (own + rivals.sum) := rfl

theorem prospect_mul_total (prize : ℚ) (rest : List ℚ) (own_pos : 0 < own)
    (positive : ∀ r ∈ rivals, 0 < r) :
    prospect own (prize :: rest) rivals * (own + rivals.sum) =
      own * prize + turns (prospect own rest) rivals :=
  div_mul_cancel₀ _ (all_pos own_pos positive).ne'

theorem prospect_le (own_pos : 0 < own) (positive : ∀ r ∈ rivals, 0 < r)
    (nonneg : 0 ≤ high) (bound : ∀ p ∈ prizes, p ≤ high) : prospect own prizes rivals ≤ high := by
  induction prizes generalizing rivals with
  | nil => exact nonneg
  | cons prize rest ih =>
      have others : turns (prospect own rest) rivals ≤ rivals.sum * high := by
        rw [← turns_const]
        exact turns_le positive fun r _ => ih (positive_erase positive r)
          fun p member => bound p (List.mem_cons_of_mem prize member)
      have first : own * prize ≤ own * high :=
        mul_le_mul_of_nonneg_left (bound prize List.mem_cons_self) own_pos.le
      rw [prospect_cons, div_le_iff₀ (all_pos own_pos positive)]
      linarith

theorem prospect_nonneg (own_pos : 0 < own) (positive : ∀ r ∈ rivals, 0 < r)
    (nonneg : ∀ p ∈ prizes, 0 ≤ p) : 0 ≤ prospect own prizes rivals := by
  induction prizes generalizing rivals with
  | nil => exact le_rfl
  | cons prize rest ih =>
      have others : 0 ≤ turns (prospect own rest) rivals := by
        rw [← mul_zero rivals.sum, ← turns_const]
        exact turns_le positive fun r _ => ih (positive_erase positive r)
          fun p member => nonneg p (List.mem_cons_of_mem prize member)
      exact div_nonneg (add_nonneg (mul_nonneg own_pos.le (nonneg prize List.mem_cons_self)) others)
        (all_pos own_pos positive).le

/-- Nobody gains when a rival leaves with the highest prize. -/
theorem prospect_le_of_left (falling : Falling (prize :: rest)) (own_pos : 0 < own)
    (rival_pos : 0 < rival) (positive : ∀ r ∈ rivals, 0 < r) :
    prospect own rest rivals ≤ prospect own (prize :: rest) (rival ::ₘ rivals) := by
  induction rest generalizing prize rivals with
  | nil => exact prospect_nonneg own_pos (positive_cons rival_pos positive) falling.nonneg
  | cons next rest ih =>
      have now := prospect_mul_total next rest own_pos positive
      have later : turns (prospect own rest) rivals ≤
          turns (fun others => prospect own (next :: rest) (rival ::ₘ others)) rivals :=
        turns_le positive fun r _ => ih falling.tail (positive_erase positive r)
      have first : own * next ≤ own * prize :=
        mul_le_mul_of_nonneg_left (falling.le_head next List.mem_cons_self) own_pos.le
      rw [prospect_cons own prize, le_div_iff₀ (all_pos own_pos (positive_cons rival_pos positive)),
        turns_cons, Multiset.sum_cons]
      linarith

theorem prospect_le_of_more (falling : Falling prizes) (own_pos : 0 < own) (le : own ≤ more)
    (positive : ∀ r ∈ rivals, 0 < r) :
    prospect own prizes rivals ≤ prospect more prizes rivals := by
  induction prizes generalizing rivals with
  | nil => exact le_rfl
  | cons prize rest ih =>
      have more_pos := own_pos.trans_le le
      have later : turns (prospect own rest) rivals ≤ turns (prospect more rest) rivals :=
        turns_le positive fun r _ => ih falling.tail (positive_erase positive r)
      have others : turns (prospect own rest) rivals ≤ rivals.sum * prize := by
        rw [← turns_const]
        exact turns_le positive fun r _ =>
          prospect_le own_pos (positive_erase positive r) falling.head_nonneg falling.le_head
      rw [prospect_cons, prospect_cons, div_le_div_iff₀ (all_pos own_pos positive)
        (all_pos more_pos positive)]
      have gain := mul_nonneg (sub_nonneg.mpr le) (sub_nonneg.mpr others)
      have rise := mul_nonneg (sub_nonneg.mpr later) (all_pos own_pos positive).le
      linarith

theorem prospect_le_of_less_rival (falling : Falling prizes) (own_pos : 0 < own)
    (rival_pos : 0 < rival) (le : rival ≤ more) (positive : ∀ r ∈ rivals, 0 < r) :
    prospect own prizes (more ::ₘ rivals) ≤ prospect own prizes (rival ::ₘ rivals) := by
  induction prizes generalizing rivals with
  | nil => exact le_rfl
  | cons prize rest ih =>
      have less := prospect_mul_total prize rest own_pos (positive_cons rival_pos positive)
      have total_pos := all_pos own_pos (positive_cons (rival_pos.trans_le le) positive)
      have later : turns (fun others => prospect own rest (more ::ₘ others)) rivals ≤
          turns (fun others => prospect own rest (rival ::ₘ others)) rivals :=
        turns_le positive fun r _ => ih falling.tail (positive_erase positive r)
      -- The chips that the rival has more weigh what is expected once he is gone.
      have gone := prospect_le_of_left falling own_pos rival_pos positive
      have extra := mul_le_mul_of_nonneg_left gone (sub_nonneg.mpr le)
      rw [turns_cons, Multiset.sum_cons] at less
      rw [prospect_cons, div_le_iff₀ total_pos, turns_cons, Multiset.sum_cons]
      linarith

/-- Against the same others, the larger of two stacks has the better prospect. -/
theorem prospect_le_prospect (falling : Falling prizes) (own_pos : 0 < own) (le : own ≤ more)
    (positive : ∀ r ∈ rivals, 0 < r) :
    prospect own prizes (more ::ₘ rivals) ≤ prospect more prizes (own ::ₘ rivals) :=
  calc prospect own prizes (more ::ₘ rivals)
      ≤ prospect own prizes (own ::ₘ rivals) :=
        prospect_le_of_less_rival falling own_pos own_pos le positive
    _ ≤ prospect more prizes (own ::ₘ rivals) :=
        prospect_le_of_more falling own_pos le (positive_cons own_pos positive)

end

/-! ## Expected payouts are prospects -/

section

variable {prize : ℚ} {rest holdings sums : List ℚ} {i j k : Nat} {own rival : ℚ}

theorem cons_eraseIdx (here : holdings[k]? = some own) :
    own ::ₘ (holdings.eraseIdx k : Multiset ℚ) = (holdings : Multiset ℚ) := by
  obtain ⟨inside, rfl⟩ := List.getElem?_eq_some_iff.mp here
  rw [Multiset.cons_coe]
  exact Multiset.coe_eq_coe.mpr (List.getElem_cons_eraseIdx_perm inside)

theorem positive_eraseIdx (positive : ∀ s ∈ holdings, 0 < s) (k : Nat) :
    ∀ r ∈ (holdings.eraseIdx k : Multiset ℚ), 0 < r := fun r member =>
  positive r (List.mem_of_mem_eraseIdx (Multiset.mem_coe.mp member))

/-- Two players have the same rivals beside each other. -/
theorem coe_eraseIdx_of_ne (here : holdings[k]? = some own) (there : holdings[j]? = some rival)
    (apart : j ≠ k) : (holdings.eraseIdx j : Multiset ℚ) =
      own ::ₘ (holdings.eraseIdx k : Multiset ℚ).erase rival := by
  have listed : rival ∈ (holdings.eraseIdx k : Multiset ℚ) :=
    Multiset.mem_coe.mpr (List.mem_eraseIdx_iff_getElem?.mpr ⟨j, apart, there⟩)
  have everyone := (cons_eraseIdx there).trans (cons_eraseIdx here).symm
  rw [← Multiset.cons_erase listed, Multiset.cons_swap, Multiset.cons_inj_right] at everyone
  exact everyone

/-- Where the player at `k` sits when the one at another place has left. -/
theorem getElem?_eraseIdx_shifted (apart : k ≠ j) :
    (holdings.eraseIdx j)[if k < j then k else k - 1]? = holdings[k]? := by
  rw [List.getElem?_eraseIdx]
  by_cases earlier : k < j
  · rw [if_pos earlier, if_pos earlier]
  · have back : k - 1 + 1 = k := by omega
    rw [if_neg earlier, if_neg (by omega), back]

theorem coe_eraseIdx_eraseIdx (here : holdings[k]? = some own) (there : holdings[j]? = some rival)
    (apart : k ≠ j) :
    (((holdings.eraseIdx j).eraseIdx (if k < j then k else k - 1) : List ℚ) : Multiset ℚ) =
      (holdings.eraseIdx k : Multiset ℚ).erase rival := by
  have both := cons_eraseIdx ((getElem?_eraseIdx_shifted apart).trans here)
  rwa [coe_eraseIdx_of_ne here there apart.symm, Multiset.cons_inj_right] at both

theorem length_parts (inside : i < holdings.length) :
    (parts prize rest holdings i).length = holdings.length := by
  rw [(parts_perm inside).length_eq, List.length_cons, length_others inside]

/-- What the turns of some players bring to the one at `k`. -/
theorem getElem?_foldl_plainTurn {players : List (ℚ × Nat)}
    (inside : ∀ player ∈ players, player.2 < holdings.length)
    (aligned : sums.length = holdings.length) (k : Nat) :
    (players.foldl (plainTurn prize rest holdings) sums)[k]? = sums[k]?.map fun sum =>
      sum + (players.map fun player =>
        (parts prize rest holdings player.2).getD k 0 * (player.1 / total holdings)).sum := by
  induction players generalizing sums with
  | nil => simp
  | cons player players ih =>
      obtain ⟨here, later⟩ := List.forall_mem_cons.mp inside
      have length := @length_parts prize rest holdings player.2 here
      rw [List.foldl_cons, plainTurn_eq here aligned,
        ih later (by rw [List.length_zipWith, aligned, length, Nat.min_self]),
        List.getElem?_zipWith']
      cases found : sums[k]? with
      | none => rfl
      | some sum =>
          have bound : k < (parts prize rest holdings player.2).length := by
            rw [length, ← aligned]
            exact (List.getElem?_eq_some_iff.mp found).1
          simp [List.getElem?_eq_getElem bound, add_assoc]

/-- A sum over the players at their places, when all but one of them count by their stacks. -/
theorem sum_zipIdx_eq (g : ℚ × Nat → ℚ) (h : ℚ → ℚ) (here : holdings[k]? = some own)
    (others : ∀ j s, j ≠ k → holdings[j]? = some s → g (s, j) = h s) :
    (holdings.zipIdx.map g).sum = g (own, k) + ((holdings.eraseIdx k).map h).sum := by
  have inside : k < holdings.zipIdx.length := by
    rw [List.length_zipIdx]
    exact (List.getElem?_eq_some_iff.mp here).1
  have entry : holdings.zipIdx[k] = (own, k) := by
    rw [List.getElem_zipIdx, Nat.zero_add, (List.getElem?_eq_some_iff.mp here).2]
  have apart := List.getElem_cons_eraseIdx_perm inside
  rw [← (apart.map g).sum_eq, List.map_cons, List.sum_cons, entry]
  have unplaced : (holdings.zipIdx.eraseIdx k).map Prod.fst = holdings.eraseIdx k := by
    rw [← List.eraseIdx_map, List.zipIdx_map_fst]
  congr 2
  rw [← unplaced, List.map_map]
  refine List.map_congr_left fun (s, j) member => ?_
  obtain ⟨l, other, listed⟩ := List.mem_eraseIdx_iff_getElem?.mp member
  obtain ⟨found, rfl⟩ : holdings[l]? = some s ∧ l = j := by
    simpa [List.getElem?_zipIdx] using listed
  exact others l s other found

theorem total_eq_own_add (here : holdings[k]? = some own) :
    total holdings = own + (holdings.eraseIdx k : Multiset ℚ).sum := by
  rw [total_eq_sum, ← Multiset.sum_coe, ← cons_eraseIdx here, Multiset.sum_cons]

/-- What the plain recursion gives a player is his prospect against the others. -/
theorem getElem?_expectations (prizes holdings : List ℚ) (k : Nat) :
    (expectations prizes holdings)[k]? = holdings[k]?.map fun own =>
      prospect own prizes (holdings.eraseIdx k : Multiset ℚ) := by
  induction prizes generalizing holdings k with
  | nil =>
      cases here : holdings[k]? with
      | none => simpa [expectations, zeros] using here
      | some own => simp [expectations, zeros, prospect, (List.getElem?_eq_some_iff.mp here).1]
  | cons prize rest ih =>
      have inside : ∀ player ∈ holdings.zipIdx, player.2 < holdings.length :=
        fun player member => by simpa using List.snd_lt_of_mem_zipIdx member
      rw [expectations_cons, getElem?_foldl_plainTurn inside (length_zeros _)]
      cases here : holdings[k]? with
      | none => simpa [zeros] using here
      | some own =>
          have bound := (List.getElem?_eq_some_iff.mp here).1
          have nothing : (zeros holdings.length : List ℚ)[k]? = some 0 := by
            simp [zeros, bound]
          have others : ∀ j s, j ≠ k → holdings[j]? = some s →
              (parts prize rest holdings j).getD k 0 * (s / total holdings) =
                s * prospect own rest ((holdings.eraseIdx k : Multiset ℚ).erase s) *
                  (total holdings)⁻¹ := by
            intro j s other there
            have place := (getElem?_eraseIdx_shifted other.symm).trans here
            rw [List.getD_eq_getElem?_getD,
              getElem?_parts (List.getElem?_eq_some_iff.mp there).1, if_neg other.symm, ih, place,
              Option.map_some, Option.getD_some, coe_eraseIdx_eraseIdx here there other.symm]
            ring
          have own_turn : (parts prize rest holdings k).getD k 0 = prize := by
            rw [List.getD_eq_getElem?_getD, getElem?_parts bound, if_pos rfl, Option.getD_some]
          rw [nothing, Option.map_some, sum_zipIdx_eq _ _ here others, own_turn,
            List.sum_map_mul_right, Option.map_some, prospect_cons, ← total_eq_own_add here, turns,
            Multiset.map_coe, Multiset.sum_coe]
          congr 1
          ring

end

end CardRoom.Icm
