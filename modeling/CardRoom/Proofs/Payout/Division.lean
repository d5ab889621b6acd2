import Mathlib
import CardRoom.Proofs.Payout.Recall

/-! # Dividing prizes exactly

Over exact fractions the expected payouts make up the prizes, and none lies beyond the prizes
that there are, where a place without a prize counts as a prize of nothing. Whoever takes the
highest prize, the others divide the rest: each turn adds one such division with the chance of
its player, and the chances make up one.
-/

namespace CardRoom.Icm

/-! ## One turn -/

/-- What everyone gets when the player at `i` takes the prize. -/
def parts (prize : ℚ) (rest holdings : List ℚ) (i : Nat) : List ℚ :=
  (expectations rest (holdings.eraseIdx i)).insertIdx i prize

theorem total_eq_sum (holdings : List ℚ) : total holdings = holdings.sum := by
  rw [total, Nat.cast_zero, List.sum_eq_foldl]

variable {prize stack : ℚ} {rest holdings sums : List ℚ} {i : Nat}

theorem length_others (inside : i < holdings.length) :
    (expectations rest (holdings.eraseIdx i)).length + 1 = holdings.length := by
  rw [length_expectations, List.length_eraseIdx_of_lt inside]
  omega

theorem parts_perm (inside : i < holdings.length) :
    (parts prize rest holdings i).Perm (prize :: expectations rest (holdings.eraseIdx i)) := by
  have others := @length_others rest _ _ inside
  exact List.perm_insertIdx _ _ (by omega)

theorem getElem?_parts (inside : i < holdings.length) (k : Nat) :
    (parts prize rest holdings i)[k]? =
      if k = i then some prize
      else (expectations rest (holdings.eraseIdx i))[if k < i then k else k - 1]? := by
  have others := @length_others rest _ _ inside
  rw [parts, List.getElem?_insertIdx]
  rcases Nat.lt_trichotomy k i with earlier | rfl | later
  · rw [if_pos earlier, if_neg earlier.ne, if_pos earlier]
  · rw [if_neg (Nat.lt_irrefl k), if_pos rfl, if_pos rfl, if_pos (by omega)]
  · rw [if_neg later.asymm, if_neg later.ne', if_neg later.ne', if_neg later.asymm]

/-- What nobody has a part in changes nothing. -/
theorem shareRest_zeros (chance : ℚ) (inside : i < sums.length) :
    shareRest chance i (zeros (sums.length - 1)) sums = sums := by
  apply List.ext_getElem?
  intro k
  rw [getElem?_shareRest chance (by rw [length_zeros]; omega) inside]
  by_cases same : k = i
  · rw [if_pos same]
  · rw [if_neg same]
    cases here : sums[k]? with
    | none => rfl
    | some sum =>
        have bound := (List.getElem?_eq_some_iff.mp here).1
        have listed : (if k < i then k else k - 1) < sums.length - 1 := by split <;> omega
        simp [zeros, listed]

theorem plainTurn_eq_shareRest (inside : i < holdings.length)
    (aligned : sums.length = holdings.length) :
    plainTurn prize rest holdings sums (stack, i) =
      shareRest (stack / total holdings) i (expectations rest (holdings.eraseIdx i))
        (takePrize prize (stack / total holdings) i sums) := by
  cases rest with
  | cons next rest => rfl
  | nil =>
      have length : (holdings.eraseIdx i).length =
          (takePrize prize (stack / total holdings) i sums).length - 1 := by
        rw [List.length_eraseIdx_of_lt inside, length_takePrize, aligned]
      rw [expectations, length, shareRest_zeros _ (by rwa [length_takePrize, aligned])]
      rfl

/-- A turn adds its player's chance of what everyone gets if he takes the prize. -/
theorem plainTurn_eq (inside : i < holdings.length) (aligned : sums.length = holdings.length) :
    plainTurn prize rest holdings sums (stack, i) =
      List.zipWith (fun sum part => sum + part * (stack / total holdings)) sums
        (parts prize rest holdings i) := by
  rw [plainTurn_eq_shareRest inside aligned]
  apply List.ext_getElem?
  intro k
  rw [getElem?_shareRest _ (by rw [length_others inside, length_takePrize, aligned])
    (by rwa [length_takePrize, aligned]), List.getElem?_zipWith', getElem?_parts inside, takePrize,
    List.getElem?_modify]
  by_cases same : k = i
  · subst same
    cases sums[k]? <;> simp
  · simp only [same, Ne.symm same, if_false]
    cases sums[k]? <;> simp

/-! ## All turns -/

/-- What players get of a pool when those with a chance of `chance` altogether have had their
turn: no prize is outside the bounds. -/
structure Divided (low high pool : ℚ) (n : Nat) (chance : ℚ) (sums : List ℚ) : Prop where
  length : sums.length = n
  sum : sums.sum = chance * pool
  within : ∀ v ∈ sums, chance * low ≤ v ∧ v ≤ chance * high

theorem sum_zipWith_add_mul {sums others : List ℚ} (same : sums.length = others.length)
    (chance : ℚ) :
    (List.zipWith (fun sum part => sum + part * chance) sums others).sum =
      sums.sum + others.sum * chance := by
  induction sums generalizing others with
  | nil =>
      rw [List.length_nil, eq_comm, List.length_eq_zero_iff] at same
      simp [same]
  | cons sum sums ih =>
      cases others with
      | nil => cases same
      | cons other others =>
          simp only [List.zipWith_cons_cons, List.sum_cons, ih (Nat.succ.inj same)]
          ring

namespace Divided

variable {low high pool chance more : ℚ} {n : Nat} {others : List ℚ}

theorem zeros (low high pool : ℚ) (n : Nat) : Divided low high pool n 0 (zeros n) where
  length := length_zeros n
  sum := by simp [Icm.zeros]
  within := by
    intro v member
    have nothing : v = 0 := by simpa [Icm.zeros] using List.eq_of_mem_replicate member
    simp [nothing]

/-- One more turn, in which everything is divided. -/
theorem add (sofar : Divided low high pool n chance sums) (turn : Divided low high pool n 1 others)
    (nonneg : 0 ≤ more) :
    Divided low high pool n (chance + more)
      (List.zipWith (fun sum part => sum + part * more) sums others) where
  length := by rw [List.length_zipWith, sofar.length, turn.length, Nat.min_self]
  sum := by
    rw [sum_zipWith_add_mul (sofar.length.trans turn.length.symm), sofar.sum, turn.sum]
    ring
  within := by
    intro v member
    obtain ⟨k, here⟩ := List.mem_iff_getElem?.mp member
    obtain ⟨sum, part, before, added, rfl⟩ := List.getElem?_zipWith_eq_some.mp here
    obtain ⟨low_sum, high_sum⟩ := sofar.within sum (List.mem_of_getElem? before)
    obtain ⟨low_part, high_part⟩ := turn.within part (List.mem_of_getElem? added)
    rw [one_mul] at low_part high_part
    rw [add_mul, add_mul, mul_comm more low, mul_comm more high]
    exact ⟨add_le_add low_sum (mul_le_mul_of_nonneg_right low_part nonneg),
      add_le_add high_sum (mul_le_mul_of_nonneg_right high_part nonneg)⟩

/-- The one who takes the prize, among the others who divide the rest. -/
theorem parts (inside : i < holdings.length) (prize_within : low ≤ prize ∧ prize ≤ high)
    (others : Divided low high pool (holdings.length - 1) 1
      (expectations rest (holdings.eraseIdx i))) :
    Divided low high (prize + pool) holdings.length 1 (parts prize rest holdings i) where
  length := by
    rw [(parts_perm inside).length_eq, List.length_cons, others.length]
    omega
  sum := by
    rw [(parts_perm inside).sum_eq, List.sum_cons, others.sum]
    ring
  within := by
    intro v member
    rcases List.mem_cons.mp ((parts_perm inside).mem_iff.mp member) with rfl | later
    · simpa using prize_within
    · exact others.within v later

/-- After some more turns, the chances of their players have come in. -/
theorem foldl_turns {players : List (ℚ × Nat)}
    (inside : ∀ player ∈ players, player.2 < holdings.length)
    (nonneg : ∀ player ∈ players, 0 ≤ player.1 / total holdings)
    (turns : ∀ i < holdings.length,
      Divided low high pool holdings.length 1 (Icm.parts prize rest holdings i))
    (sofar : Divided low high pool holdings.length chance sums) :
    Divided low high pool holdings.length
      (chance + (players.map fun player => player.1 / total holdings).sum)
      (players.foldl (plainTurn prize rest holdings) sums) := by
  induction players generalizing chance sums with
  | nil => simpa using sofar
  | cons player players ih =>
      obtain ⟨here, later⟩ := List.forall_mem_cons.mp inside
      obtain ⟨chance_nonneg, later_nonneg⟩ := List.forall_mem_cons.mp nonneg
      have next := sofar.add (turns player.2 here) chance_nonneg
      rw [← plainTurn_eq here sofar.length] at next
      rw [List.map_cons, List.sum_cons, ← add_assoc]
      exact ih later later_nonneg next

end Divided

theorem sum_chances (some_stack : holdings ≠ []) (positive : ∀ s ∈ holdings, 0 < s) :
    (holdings.zipIdx.map fun player => player.1 / total holdings).sum = 1 := by
  have all : 0 < holdings.sum := List.sum_pos holdings positive some_stack
  have chances : (holdings.zipIdx.map fun player => player.1 / total holdings) =
      (holdings.zipIdx.map Prod.fst).map fun s => (total holdings)⁻¹ * s := by
    rw [List.map_map]
    exact List.map_congr_left fun player _ => div_eq_inv_mul _ _
  rw [chances, List.zipIdx_map_fst, List.sum_map_mul_left, List.map_id', total_eq_sum, inv_mul_cancel₀ all.ne']

/-- The expected payouts make up the prizes and keep within their bounds. Nothing has to be within
the bounds too if there are more players than prizes. -/
theorem divided_expectations {prizes : List ℚ} {low high : ℚ} (positive : ∀ s ∈ holdings, 0 < s)
    (enough : prizes.length ≤ holdings.length) (within : ∀ p ∈ prizes, low ≤ p ∧ p ≤ high)
    (spare : prizes.length < holdings.length → low ≤ 0 ∧ 0 ≤ high) :
    Divided low high prizes.sum holdings.length 1 (expectations prizes holdings) := by
  induction prizes generalizing holdings with
  | nil =>
      refine ⟨length_expectations _ _, by simp [expectations, zeros], fun v member => ?_⟩
      rw [expectations, zeros] at member
      have some_place : 0 < holdings.length := by
        have := List.length_pos_of_mem member
        rwa [List.length_replicate] at this
      rw [List.eq_of_mem_replicate member, Nat.cast_zero]
      simpa using spare some_place
  | cons prize rest ih =>
      rw [List.length_cons] at enough spare
      have some_stack : holdings ≠ [] := List.ne_nil_of_length_pos (by omega)
      have all : 0 < total holdings := by
        rw [total_eq_sum]
        exact List.sum_pos holdings positive some_stack
      have turns : ∀ i < holdings.length, Divided low high (prize :: rest).sum holdings.length 1
          (parts prize rest holdings i) := by
        intro i inside
        have fewer := List.length_eraseIdx_of_lt inside
        have others : Divided low high rest.sum (holdings.length - 1) 1
            (expectations rest (holdings.eraseIdx i)) := by
          rw [← fewer]
          apply ih (fun s member => positive s (List.mem_of_mem_eraseIdx member))
          · omega
          · exact fun p member => within p (List.mem_cons_of_mem prize member)
          · exact fun spare_place => spare (by omega)
        exact Divided.parts inside (within prize List.mem_cons_self) others
      have nonneg : ∀ player ∈ holdings.zipIdx, 0 ≤ player.1 / total holdings := fun player member =>
        div_nonneg (positive _ (List.fst_mem_of_mem_zipIdx member)).le all.le
      have inside : ∀ player ∈ holdings.zipIdx, player.2 < holdings.length := fun player member => by
        simpa using List.snd_lt_of_mem_zipIdx member
      have divided := (Divided.zeros low high (prize :: rest).sum holdings.length).foldl_turns
        inside nonneg turns
      rwa [sum_chances some_stack positive, zero_add, ← expectations_cons] at divided

end CardRoom.Icm
