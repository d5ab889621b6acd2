import Mathlib
import CardRoom.Proofs.Hand.Judging

/-! # The best choice of five

A choice of five cards is told by five places that go up. Cards that can be judged score as much
as the best choice of five of them, whatever the order in which choices are tried, so further cards
never lower the score.
-/

namespace CardRoom.Hand

variable {cards : List Card}

/-- The cards at five places that go up. -/
def chosen (cards : List Card) (places : Fin handSize ↪o Fin cards.length) : List Card :=
  List.ofFn fun i => cards[places i]

@[simp] theorem length_chosen (places : Fin handSize ↪o Fin cards.length) :
    (chosen cards places).length = handSize := List.length_ofFn

theorem chosen_sublist (places : Fin handSize ↪o Fin cards.length) :
    (chosen cards places).Sublist cards := by
  refine List.sublist_iff_exists_fin_orderEmbedding_get_eq.mpr ?_
  refine ⟨(Fin.castOrderIso (length_chosen places)).toOrderEmbedding.trans places, fun i => ?_⟩
  exact List.get_ofFn _ _

/-- Five cards of the list, in its order, stand at five places of it. -/
theorem exists_places {five : List Card} (sub : five.Sublist cards)
    (length : five.length = handSize) :
    ∃ places : Fin handSize ↪o Fin cards.length, five = chosen cards places := by
  obtain ⟨embedding, same⟩ := List.sublist_iff_exists_fin_orderEmbedding_get_eq.mp sub
  refine ⟨(Fin.castOrderIso length.symm).toOrderEmbedding.trans embedding, ?_⟩
  refine List.ext_getElem (length.trans (length_chosen _).symm) fun i first second => ?_
  simpa [chosen] using same ⟨i, first⟩

/-- Cards that can be judged score what the best five of them do, and further cards never lower
the score. Other cards are refused with a reason. -/
theorem judge_finds_best_choice (cards : List Card) :
    (IsJudgeable cards →
      ∃ r, best cards = .ok r ∧ judge cards = .ok r.score ∧
        (∃ places, r.score = (ranking (chosen cards places)).score) ∧
        (∀ places, (ranking (chosen cards places)).score ≤ r.score) ∧
        ∀ more : List Card, cards.Sublist more → (∀ c ∈ more, c.IsValid) →
          ∃ s, judge more = .ok s ∧ r.score ≤ s) ∧
    (¬ IsJudgeable cards →
      if cards.length < handSize then judge cards = .error (.tooFewCards cards.length)
      else ∃ before bad after, cards = before ++ bad :: after ∧ (∀ c ∈ before, c.IsValid) ∧
        ¬ bad.IsValid ∧ judge cards = .error (.unknownCard bad)) := by
  constructor
  · intro fit
    obtain ⟨five, sub, length, found, above⟩ := best_spec fit.1 fit.2
    refine ⟨ranking five, found, judge_of_best found, ?_, fun places => ?_,
      fun more longer valid => ?_⟩
    · obtain ⟨places, rfl⟩ := exists_places sub length
      exact ⟨places, rfl⟩
    · exact above _ (chosen_sublist places) (length_chosen places)
    · -- The five cards are among the longer list's choices as well.
      obtain ⟨_, -, -, found_more, above_more⟩ :=
        best_spec (fit.1.trans longer.length_le) valid
      exact ⟨_, judge_of_best found_more, above_more five (sub.trans longer) length⟩
  · intro unfit
    have refused := best_of_not_judgeable unfit
    split at refused
    · rename_i few
      rw [if_pos few]
      exact judge_of_error refused
    · rename_i enough
      obtain ⟨before, bad, after, split, earlier, is_bad, refused⟩ := refused
      rw [if_neg enough]
      exact ⟨before, bad, after, split, earlier, is_bad, judge_of_error refused⟩

/-- The full house with the fourth ace in the middle. -/
def fourAces : List Card := [⟨8⟩, ⟨48⟩, ⟨10⟩, ⟨50⟩, ⟨49⟩, ⟨51⟩]

/-- The full house behind a card that no deck has. -/
def strayCard : List Card := ⟨52⟩ :: acesFull

theorem judge_finds_best_choice_fourAces :
    (IsJudgeable acesFull ∧ acesFull.Sublist fourAces ∧ (∀ c ∈ fourAces, c.IsValid) ∧
      ¬ IsJudgeable strayCard) ∧
    (∃ r : Ranking, judge acesFull = .ok r.score ∧ ∃ s, judge fourAces = .ok s ∧ r.score ≤ s) ∧
    ∃ bad, ¬ bad.IsValid ∧ judge strayCard = .error (.unknownCard bad) := by
  have fit : IsJudgeable acesFull := by decide
  have longer : acesFull.Sublist fourAces := by decide
  have valid : ∀ c ∈ fourAces, c.IsValid := by decide
  have unfit : ¬ IsJudgeable strayCard := by decide
  obtain ⟨r, -, judged, -, -, grows⟩ := (judge_finds_best_choice acesFull).1 fit
  have refused := (judge_finds_best_choice strayCard).2 unfit
  rw [if_neg (by decide)] at refused
  obtain ⟨-, bad, -, -, -, is_bad, refused⟩ := refused
  exact ⟨⟨fit, longer, valid, unfit⟩, ⟨r, judged, grows fourAces longer valid⟩, bad, is_bad,
    refused⟩

end CardRoom.Hand
