import Mathlib
import CardRoom.Proofs.Hand.Judging
import CardRoom.Proofs.Pot.Awards

/-! # Cards that cannot be judged win nothing from cards that can

Different cards that can be judged score above zero, and all others score zero. So once a rival's
cards can be judged, every winner's can, and whoever has cards that cannot wins only where nobody
has better ones. What a place receives is said by the payments, for an award gives an id only.
-/

namespace CardRoom.Showdown

variable {judge : Judge} {s : Showdown} {pot : Pot} {p : Player} {k : Nat}

/-- A payment from a pot goes to a rival there whom no other rival beats. -/
theorem exists_rival_of_mem_payments {payment : Payment}
    (here : (Pot.resolve (s.active judge) (s.pots (s.active judge)))[k]? = some pot)
    (paid : payment ∈ s.payments judge) (own : payment.award.potIndex = k) :
    ∃ q ∈ s.rivals pot, s.players[payment.position]? = some q ∧ payment.award.playerId = q.id ∧
      ∀ p ∈ s.rivals pot, p.score judge s.board ≤ q.score judge s.board := by
  obtain ⟨⟨source, j⟩, entry, paid⟩ := List.mem_flatMap.mp paid
  obtain ⟨w, won, place, named, index, -⟩ := Pot.exists_winner_of_mem_payments paid
  obtain rfl : j = k := index.symm.trans own
  obtain rfl := Option.some.inj ((List.mem_zipIdx_iff_getElem?.mp entry).symm.trans here)
  obtain ⟨contends, listed, top⟩ := Pot.mem_winners.mp won
  obtain ⟨q, there, playing, same, scored⟩ := mem_contenders.mp contends
  have member := mem_inPlay.mpr ⟨List.mem_of_getElem? there, playing⟩
  refine ⟨q, mem_rivals.mpr ⟨member, same ▸ listed⟩, place ▸ there, named.trans same, ?_⟩
  intro p rival
  obtain ⟨in_play, p_listed⟩ := mem_rivals.mp rival
  obtain ⟨present, active⟩ := mem_inPlay.mp in_play
  obtain ⟨i, at_i⟩ := List.mem_iff_getElem?.mp present
  exact scored ▸ top _ (contends_of_getElem? judge at_i active) p_listed

/-! ## Judged and unjudged cards -/

theorem judgeable_of_mem_payments (distinct : ∀ p ∈ s.inPlay, (p.cards s.board).Nodup)
    {payment : Payment}
    (here : (Pot.resolve (s.active Hand.judge) (s.pots (s.active Hand.judge)))[k]? = some pot)
    (judged : ∃ p ∈ s.rivals pot, Hand.IsJudgeable (p.cards s.board))
    (paid : payment ∈ s.payments Hand.judge) (own : payment.award.potIndex = k) :
    ∃ q ∈ s.rivals pot, s.players[payment.position]? = some q ∧ payment.award.playerId = q.id ∧
      Hand.IsJudgeable (q.cards s.board) := by
  obtain ⟨q, rival, there, named, top⟩ := exists_rival_of_mem_payments here paid own
  refine ⟨q, rival, there, named, ?_⟩
  by_contra unfit
  obtain ⟨p, p_rival, fit⟩ := judged
  have positive := Player.score_pos_of_judgeable (distinct p (mem_rivals.mp p_rival).1) fit
  have above := top p p_rival
  rw [Player.score_of_not_judgeable unfit] at above
  exact Nat.not_lt_of_le above positive

/-- While no player in play has a card twice, cards that can be judged score above zero, and a pot
with such cards on its list pays only players who have such cards. An award gives no more than an
id, so it names a player whose cards cannot be judged only if he shares his id. -/
theorem judgeable_hands_shut_out_others (s : Showdown)
    (distinct : ∀ p ∈ s.inPlay, (p.cards s.board).Nodup) :
    let active := s.inPlay.map Player.id
    let pots := Pot.resolve active (s.pots active)
    let after := (s.settle Hand.judge).1
    let account := (s.settle Hand.judge).2
    let payments := s.payments Hand.judge
    (∀ p ∈ s.inPlay, Hand.IsJudgeable (p.cards s.board) → 0 < p.score Hand.judge s.board) ∧
    (account.awards = payments.map Payment.award ∧
      after.players = payments.foldl pay (account.refunds.foldl giveBack s.players)) ∧
    ∀ (k : Nat) (pot : Pot), pots[k]? = some pot →
      (∃ p ∈ s.rivals pot, Hand.IsJudgeable (p.cards s.board)) →
      (∀ payment ∈ payments, payment.award.potIndex = k →
        ∃ q ∈ s.rivals pot, s.players[payment.position]? = some q ∧
          payment.award.playerId = q.id ∧ Hand.IsJudgeable (q.cards s.board)) ∧
      ∀ q ∈ s.rivals pot, ¬ Hand.IsJudgeable (q.cards s.board) →
        (∀ p ∈ s.inPlay, p.id = q.id → p = q) →
        ∀ award ∈ account.awards, award.potIndex = k → award.playerId ≠ q.id := by
  intro active pots after account payments
  have same : s.active Hand.judge = active := active_eq
  have pays := settle_pays Hand.judge s
  refine ⟨fun p in_play fit => Player.score_pos_of_judgeable (distinct p in_play) fit, pays, ?_⟩
  intro k pot here judged
  have winners : ∀ payment ∈ payments, payment.award.potIndex = k →
      ∃ q ∈ s.rivals pot, s.players[payment.position]? = some q ∧
        payment.award.playerId = q.id ∧ Hand.IsJudgeable (q.cards s.board) :=
    fun payment paid own => judgeable_of_mem_payments distinct (same ▸ here) judged paid own
  refine ⟨winners, fun q _ unfit alone award given own named => ?_⟩
  obtain ⟨payment, paid, rfl⟩ := List.mem_map.mp (pays.1 ▸ given)
  obtain ⟨r, rival, -, r_named, fit⟩ := winners payment paid own
  obtain rfl := alone r (mem_rivals.mp rival).1 (r_named.symm.trans named)
  exact unfit fit

/-- Player 1 makes a pair with the board, player 2 has no cards on record, and player 3 holds a card
of no deck. Players 2 and 3 have a side pot of their own. -/
def missingCards : Showdown where
  players := [.seated 2 (.ofNat 5),
    { Player.seated 1 (.ofNat 10) with holeCards := some [.ofRankSuit 0 0, .ofRankSuit 7 1] },
    { Player.seated 3 0 with holeCards := some [.ofRankSuit 12 0, ⟨60⟩] }]
  sidePots := [⟨.ofNat 30, [1, 2, 3], ∅⟩, ⟨.ofNat 8, [2, 3], ∅⟩]
  board := [.ofRankSuit 12 2, .ofRankSuit 7 2, .ofRankSuit 5 3]

theorem judgeable_hands_shut_out_others_missingCards :
    (∀ p ∈ missingCards.inPlay, (p.cards missingCards.board).Nodup) ∧
      (∀ p ∈ missingCards.inPlay, Hand.IsJudgeable (p.cards missingCards.board) →
        0 < p.score Hand.judge missingCards.board) ∧
      (∃ p ∈ missingCards.inPlay, Hand.IsJudgeable (p.cards missingCards.board)) ∧
      ∀ award ∈ (missingCards.settle Hand.judge).2.awards, award.potIndex = 0 →
        award.playerId ≠ 2 := by
  have distinct : ∀ p ∈ missingCards.inPlay, (p.cards missingCards.board).Nodup := by decide
  obtain ⟨positive, -, each⟩ := judgeable_hands_shut_out_others missingCards distinct
  obtain ⟨-, by_id⟩ := each 0 ⟨.ofNat 30, [1, 2, 3]⟩ (by decide) (by decide)
  exact ⟨distinct, positive, by decide,
    by_id (.seated 2 (.ofNat 5)) (by decide) (by decide) (by decide)⟩

end CardRoom.Showdown
