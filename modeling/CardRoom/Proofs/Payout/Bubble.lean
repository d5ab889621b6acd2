import Mathlib
import CardRoom.Payout.Bubble
import CardRoom.Payout.Remainder
import CardRoom.Proofs.Payout.Rounding

/-! # Sharing on the bubble

Players who leave together stand in the order of their stacks, and equal stacks in the order in
which they were named. There is only one such order. The prizes of their places are dealt round it,
so everything is paid, nobody gets more than one chip above another, and the chips that are left
over go to the larger stacks.
-/

namespace CardRoom

/-- The players of one list in falling order of their stacks, where players with equal stacks keep
the order that they had. -/
structure FallsStably (busts ordered : List (PlayerId × Nat)) : Prop where
  perm : ordered.Perm busts
  falls : ordered.Pairwise fun a b => b.2 ≤ a.2
  stable : ∀ stack, ordered.filter (·.2 = stack) = busts.filter (·.2 = stack)

section

variable {xs ys : List (PlayerId × Nat)}

theorem mem_iff_of_filters_eq (same : ∀ stack, xs.filter (·.2 = stack) = ys.filter (·.2 = stack))
    (a : PlayerId × Nat) : a ∈ xs ↔ a ∈ ys := by
  have listed : a ∈ xs.filter (·.2 = a.2) ↔ a ∈ ys.filter (·.2 = a.2) := by rw [same]
  simpa using listed

theorem le_head_of_falls {x : PlayerId × Nat} (falls : (x :: xs).Pairwise fun a b => b.2 ≤ a.2) :
    ∀ a ∈ x :: xs, a.2 ≤ x.2 := by
  intro a member
  rcases List.mem_cons.mp member with rfl | later
  · exact le_rfl
  · exact List.rel_of_pairwise_cons falls later

/-- A falling list is made up of its parts with one stack each. -/
theorem eq_of_filters_eq (falls : xs.Pairwise fun a b => b.2 ≤ a.2)
    (other : ys.Pairwise fun a b => b.2 ≤ a.2)
    (same : ∀ stack, xs.filter (·.2 = stack) = ys.filter (·.2 = stack)) : xs = ys := by
  have mem_iff := mem_iff_of_filters_eq same
  induction xs generalizing ys with
  | nil =>
      refine (List.eq_nil_iff_forall_not_mem.mpr fun a member => ?_).symm
      exact absurd ((mem_iff a).mpr member) List.not_mem_nil
  | cons x xs ih =>
      cases ys with
      | nil => exact absurd ((mem_iff x).mp List.mem_cons_self) List.not_mem_nil
      | cons y ys =>
          have stack : y.2 = x.2 := le_antisymm
            (le_head_of_falls falls y ((mem_iff y).mpr List.mem_cons_self))
            (le_head_of_falls other x ((mem_iff x).mp List.mem_cons_self))
          -- The players with the largest stack are first in both lists, and among them these two.
          have first := same x.2
          rw [List.filter_cons_of_pos (by simp), List.filter_cons_of_pos (by simp [stack])] at first
          obtain ⟨rfl, -⟩ := List.cons.inj first
          have rest : ∀ n, xs.filter (·.2 = n) = ys.filter (·.2 = n) := by
            intro n
            have both := same n
            rw [List.filter_cons, List.filter_cons] at both
            split at both
            · exact (List.cons.inj both).2
            · exact both
          rw [ih falls.of_cons other.of_cons rest (mem_iff_of_filters_eq rest)]

end

theorem FallsStably.unique {busts ordered other : List (PlayerId × Nat)}
    (one : FallsStably busts ordered) (two : FallsStably busts other) : other = ordered :=
  eq_of_filters_eq two.falls one.falls fun stack => (two.stable stack).trans (one.stable stack).symm

/-- A larger stack stands ahead. -/
theorem FallsStably.lt_of_larger {busts ordered : List (PlayerId × Nat)}
    (stable : FallsStably busts ordered) {i j : Nat} {a b : PlayerId × Nat}
    (here : ordered[i]? = some a) (there : ordered[j]? = some b) (larger : b.2 < a.2) : i < j := by
  by_contra behind
  obtain ⟨first, rfl⟩ := List.getElem?_eq_some_iff.mp here
  obtain ⟨second, rfl⟩ := List.getElem?_eq_some_iff.mp there
  rcases (Nat.not_lt.mp behind).lt_or_eq with earlier | rfl
  · have falls := List.pairwise_iff_getElem.mp stable.falls j i second first earlier
    omega
  · exact Nat.lt_irrefl _ larger

/-- The players with the largest stack first, as the prizes are shared. -/
def largestFirst (busts : List (PlayerId × Nat)) : List (PlayerId × Nat) :=
  busts.mergeSort fun a b => decide (b.2 ≤ a.2)

theorem fallsStably_largestFirst (busts : List (PlayerId × Nat)) :
    FallsStably busts (largestFirst busts) := by
  have trans : ∀ a b c : PlayerId × Nat, decide (b.2 ≤ a.2) = true → decide (c.2 ≤ b.2) = true →
      decide (c.2 ≤ a.2) = true := by
    intro a b c first second
    exact decide_eq_true ((of_decide_eq_true second).trans (of_decide_eq_true first))
  have total : ∀ a b : PlayerId × Nat, (decide (b.2 ≤ a.2) || decide (a.2 ≤ b.2)) = true := by
    intro a b
    simpa using Nat.le_total b.2 a.2
  refine ⟨List.mergeSort_perm _ _,
    (List.pairwise_mergeSort trans total _).imp fun le => of_decide_eq_true le, fun stack => ?_⟩
  -- Players with one stack are in order as they are, so sorting leaves them among themselves.
  have level : (busts.filter (·.2 = stack)).Pairwise fun a b => decide (b.2 ≤ a.2) = true := by
    refine List.pairwise_of_forall_mem_list fun a first b second => ?_
    have one : a.2 = stack := by simpa using (List.mem_filter.mp first).2
    have two : b.2 = stack := by simpa using (List.mem_filter.mp second).2
    exact decide_eq_true (two.trans one.symm).le
  have kept : (busts.filter (·.2 = stack)).Sublist (largestFirst busts) :=
    List.sublist_mergeSort trans total level List.filter_sublist
  have inside := kept.filter (·.2 = stack)
  rw [List.filter_filter] at inside
  simp only [Bool.and_self] at inside
  exact (inside.eq_of_length ((List.mergeSort_perm busts _).filter _).length_eq.symm).symm

theorem shareBubble_eq (busts : List (PlayerId × Nat)) (prizes : List Nat) :
    shareBubble busts prizes = (largestFirst busts).mapIdx fun i player =>
      ⟨player.1, topUp (tally (prizes.take busts.length)) busts.length i⟩ := rfl

theorem length_largestFirst (busts : List (PlayerId × Nat)) :
    (largestFirst busts).length = busts.length :=
  (List.mergeSort_perm busts _).length_eq

theorem getElem?_shareBubble (busts : List (PlayerId × Nat)) (prizes : List Nat) (i : Nat) :
    (shareBubble busts prizes)[i]? = (largestFirst busts)[i]?.map fun player =>
      ⟨player.1, topUp (tally (prizes.take busts.length)) busts.length i⟩ := by
  rw [shareBubble_eq, List.getElem?_mapIdx]

theorem prize_eq_topUp {busts : List (PlayerId × Nat)} {prizes : List Nat} {i : Nat} {s : BubbleShare}
    (here : (shareBubble busts prizes)[i]? = some s) :
    s.prize = topUp (tally (prizes.take busts.length)) busts.length i := by
  rw [getElem?_shareBubble] at here
  obtain ⟨player, -, rfl⟩ := Option.map_eq_some_iff.mp here
  rfl

theorem map_prize_shareBubble (busts : List (PlayerId × Nat)) (prizes : List Nat) :
    (shareBubble busts prizes).map BubbleShare.prize =
      (List.range busts.length).map (topUp (tally (prizes.take busts.length)) busts.length) := by
  apply List.ext_getElem
  · simp [shareBubble_eq, length_largestFirst]
  · intro i first second
    simp [shareBubble_eq]

theorem map_playerId_shareBubble (busts : List (PlayerId × Nat)) (prizes : List Nat) :
    (shareBubble busts prizes).map BubbleShare.playerId = (largestFirst busts).map Prod.fst := by
  apply List.ext_getElem
  · simp [shareBubble_eq]
  · intro i first second
    simp [shareBubble_eq]

/-- Players who leave together are listed in the one falling order of their stacks that leaves equal
stacks as they were. They are paid exactly the first prizes, as many as there are players, any two
of them within one chip, and the larger prizes come first, so a larger stack is never paid less. -/
theorem bubble_prizes_shared (busts : List (PlayerId × Nat)) (prizes : List Nat) :
    let shares := shareBubble busts prizes
    ∃ ordered, FallsStably busts ordered ∧
      (∀ other, FallsStably busts other → other = ordered) ∧
      shares.map BubbleShare.playerId = ordered.map Prod.fst ∧
      tally (shares.map BubbleShare.prize) = tally (prizes.take busts.length) ∧
      (∀ a ∈ shares, ∀ b ∈ shares, a.prize ≤ b.prize + 1) ∧
      (shares.map BubbleShare.prize).Pairwise (· ≥ ·) ∧
      ∀ (i j : Nat) (a b : PlayerId × Nat) (s t : BubbleShare), ordered[i]? = some a →
        ordered[j]? = some b → shares[i]? = some s → shares[j]? = some t → b.2 < a.2 →
        t.prize ≤ s.prize := by
  intro shares
  have stable := fallsStably_largestFirst busts
  refine ⟨largestFirst busts, stable, fun other => stable.unique,
    map_playerId_shareBubble busts prizes, ?_, fun a first b second => ?_, ?_,
    fun i j a b s t here there share other larger => ?_⟩
  · rw [map_prize_shareBubble]
    rcases Nat.eq_zero_or_pos busts.length with nobody | someone
    · simp [nobody]
    · exact tally_topUp _ someone
  · obtain ⟨i, share⟩ := List.mem_iff_getElem?.mp first
    obtain ⟨j, other⟩ := List.mem_iff_getElem?.mp second
    rw [prize_eq_topUp share, prize_eq_topUp other]
    exact topUp_le_succ _ _ i j
  · rw [map_prize_shareBubble, List.pairwise_map]
    exact List.pairwise_lt_range.imp fun less => topUp_anti _ _ less.le
  · rw [prize_eq_topUp share, prize_eq_topUp other]
    exact topUp_anti _ _ (stable.lt_of_larger here there larger).le

/-- Three players leave, two of them with equal stacks, and 151 chips are left for three places. -/
example : shareBubble [(1, 500), (2, 900), (3, 500)] [100, 51, 0, 7] =
    [⟨2, 51⟩, ⟨1, 50⟩, ⟨3, 50⟩] := by
  cbv

end CardRoom
