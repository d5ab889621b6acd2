import Mathlib
import CardRoom.Proofs.Pot.Growth

/-! # A better hand never wins less

Who is active, and so how the pots are resolved, does not depend on the scores. When one player's
score is raised and the others keep theirs, a pot that he had a share of becomes his alone, and a
pot that he had no share of cannot give him less. That the odd chips go to one winner only may hurt
the others, but not him.
-/

namespace CardRoom

/-- What some payments bring to a place, never cut off. -/
def paidTo (payments : List Payment) (i : Nat) : Nat :=
  tally ((payments.filter (·.position = i)).map (·.award.amount.count))

namespace Showdown

variable {judge better : Judge} {s : Showdown} {pot : Pot} {i k : Nat} {p : Player}

theorem paidTo_payments (judge : Judge) (s : Showdown) (i : Nat) :
    paidTo (s.payments judge) i =
      tally ((Pot.resolve (s.active judge) (s.pots (s.active judge))).zipIdx.map fun (pot, k) =>
        paidTo (pot.payments (s.contenders judge) k) i) := by
  rw [paidTo, payments, List.filter_flatMap, tally_flatMap]
  rfl

/-! ## One pot -/

section

variable (here : s.players[i]? = some p) (playing : p.folded = false)
  (others : ∀ j q, s.players[j]? = some q → j ≠ i → q.folded = false →
    q.score judge s.board = q.score better s.board)
include here others

theorem contenders_of_eq (same : p.score judge s.board = p.score better s.board) :
    s.contenders judge = s.contenders better := by
  refine List.filterMap_congr fun entry listed => ?_
  obtain ⟨q, j⟩ := entry
  have there : s.players[j]? = some q := List.mem_zipIdx_iff_getElem?.mp listed
  dsimp only
  cases folded : q.folded with
  | true => rfl
  | false =>
      by_cases own : j = i
      · subst own
        obtain rfl := Option.some.inj (here.symm.trans there)
        rw [same]
      · rw [others j q there own folded]

include playing

/-- Whoever was beaten by the player before is beaten for good once his score is raised. -/
theorem position_of_winner (listed : p.id ∈ pot.eligible)
    (beaten : ∀ d ∈ s.contenders judge, d.playerId ∈ pot.eligible →
      d.score ≤ p.score judge s.board)
    (raised : p.score judge s.board < p.score better s.board) {w : Contender}
    (won : w ∈ pot.winners (s.contenders better)) : w.position = i := by
  by_contra other
  obtain ⟨contends, w_listed, top⟩ := Pot.mem_winners.mp won
  obtain ⟨q, there, in_play, named, scored⟩ := mem_contenders.mp contends
  have above : p.score better s.board ≤ w.score :=
    top _ (contends_of_getElem? better here playing) listed
  have below : q.score judge s.board ≤ p.score judge s.board :=
    beaten _ (contends_of_getElem? judge there in_play) (named ▸ w_listed)
  rw [others w.position q there other in_play, ← scored] at below
  exact absurd (Nat.lt_of_lt_of_le raised above) (Nat.not_lt_of_le below)

/-- No pot pays the player less once his score is raised. -/
theorem paidTo_pot_le (raised : p.score judge s.board ≤ p.score better s.board) :
    paidTo (pot.payments (s.contenders judge) k) i ≤
      paidTo (pot.payments (s.contenders better) k) i := by
  rcases Nat.lt_or_eq_of_le raised with higher | same
  · by_cases shared : ∃ w ∈ pot.winners (s.contenders judge), w.position = i
    · -- He had a share, so now he beats everyone on the list, and the whole pot is his.
      obtain ⟨w, won, place⟩ := shared
      obtain ⟨contends, listed, top⟩ := Pot.mem_winners.mp won
      obtain ⟨q, there, -, named, scored⟩ := mem_contenders.mp contends
      rw [place] at there
      obtain rfl := Option.some.inj (here.symm.trans there)
      rw [named] at listed
      rw [scored] at top
      have all : (pot.payments (s.contenders better) k).filter (·.position = i) =
          pot.payments (s.contenders better) k := by
        refine List.filter_eq_self.mpr fun payment paid => decide_eq_true ?_
        obtain ⟨v, also_won, at_place, -⟩ := Pot.exists_winner_of_mem_payments paid
        exact at_place.trans (position_of_winner here playing others listed top higher also_won)
      have contested : pot.isContested ((s.contenders better).map Contender.playerId) = true :=
        Pot.isContested_iff.mpr
          ⟨p.id, listed, List.mem_map_of_mem (contends_of_getElem? better here playing)⟩
      calc paidTo (pot.payments (s.contenders judge) k) i
          ≤ tally ((pot.payments (s.contenders judge) k).map (·.award.amount.count)) :=
            tally_filter_le _ _ _
        _ ≤ pot.amount.count := Pot.tally_payments_le _ k pot
        _ = tally ((pot.payments (s.contenders better) k).map (·.award.amount.count)) :=
            (Pot.tally_payments (.inr contested)).symm
        _ = paidTo (pot.payments (s.contenders better) k) i := by rw [paidTo, all]
    · have nothing : (pot.payments (s.contenders judge) k).filter (·.position = i) = [] := by
        refine List.filter_eq_nil_iff.mpr fun payment paid at_place => shared ?_
        obtain ⟨w, won, place, -⟩ := Pot.exists_winner_of_mem_payments paid
        exact ⟨w, won, place.symm.trans (of_decide_eq_true at_place)⟩
      rw [paidTo, nothing]
      exact Nat.zero_le _
  · rw [contenders_of_eq here others (Score.ext same)]

/-! ## All pots -/

theorem paidTo_le (raised : p.score judge s.board ≤ p.score better s.board) :
    paidTo (s.payments judge) i ≤ paidTo (s.payments better) i := by
  rw [paidTo_payments, paidTo_payments, active_congr judge better]
  exact tally_le_tally fun entry _ => paidTo_pot_le here playing others raised

end

/-- When the others are judged as before and a player in play at least as high, the showdown leaves
him with no smaller stack. Ids may repeat, and sums may be cut off at the cap. -/
theorem stack_le_of_better_hand (judge better : Judge) (s : Showdown) (i : Nat) (p : Player)
    (here : s.players[i]? = some p) (playing : p.folded = false)
    (others : ∀ j q, s.players[j]? = some q → j ≠ i → q.folded = false →
      q.score judge s.board = q.score better s.board)
    (raised : p.score judge s.board ≤ p.score better s.board) :
    ∃ q r, (s.settle judge).1.players[i]? = some q ∧ (s.settle better).1.players[i]? = some r ∧
      q.stack ≤ r.stack := by
  have someone : ∃ p ∈ s.players, p.folded = false := ⟨p, List.mem_of_getElem? here, playing⟩
  obtain ⟨q, first, grown⟩ := exists_settled_at_place judge someone here
  obtain ⟨r, second, also_grown⟩ := exists_settled_at_place better someone here
  refine ⟨q, r, first, second, ?_⟩
  have refunds : s.refunds judge = s.refunds better := by
    rw [refunds, refunds, active_congr judge better]
  have paid := paidTo_le here playing others raised
  show q.stack.count ≤ r.stack.count
  rw [grown, also_grown, refunds]
  simp only [paidTo] at paid
  omega

/-- Three players share an odd pot, the second one also a side pot, and nobody has five cards. -/
def oddChips : Showdown where
  players := [.seated 1 (.ofNat 10),
    { Player.seated 2 (.ofNat 20) with holeCards := some [⟨51⟩, ⟨50⟩] }, .seated 3 0]
  pot := .ofNat 11
  sidePots := [⟨.ofNat 7, [3, 2], ∅⟩]

/-- Two cards count as a hand, and five are judged as ever. -/
def twoCardJudge : Judge := fun cards => if cards.length = 2 then .ok ⟨1⟩ else Hand.judge cards

theorem stack_le_of_better_hand_oddChips :
    (∃ p : Player, oddChips.players[1]? = some p ∧ p.folded = false ∧
      p.score Hand.judge oddChips.board ≤ p.score twoCardJudge oddChips.board) ∧
    (∀ (j : Nat) (q : Player), oddChips.players[j]? = some q → j ≠ 1 → q.folded = false →
      q.score Hand.judge oddChips.board = q.score twoCardJudge oddChips.board) ∧
    ∃ q r : Player, (oddChips.settle Hand.judge).1.players[1]? = some q ∧
      (oddChips.settle twoCardJudge).1.players[1]? = some r ∧ q.stack ≤ r.stack := by
  have raised : oddChips.players[1].score Hand.judge oddChips.board ≤
      oddChips.players[1].score twoCardJudge oddChips.board := by decide
  have others : ∀ (j : Nat) (q : Player), oddChips.players[j]? = some q → j ≠ 1 →
      q.folded = false →
        q.score Hand.judge oddChips.board = q.score twoCardJudge oddChips.board := by
    intro j q there other _
    match j with
    | 0 | 2 =>
        cases there
        decide
    | 1 => exact absurd rfl other
    | j + 3 => cases there
  exact ⟨⟨_, rfl, rfl, raised⟩, others,
    stack_le_of_better_hand Hand.judge twoCardJudge oddChips 1 _ rfl rfl others raised⟩

end Showdown

end CardRoom
