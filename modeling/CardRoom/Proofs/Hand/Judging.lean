import Mathlib
import CardRoom.Pot.Showdown
import CardRoom.Proofs.Hand.Scores

/-! # Cards that can be judged

Five or more cards of the deck can be judged, and no others. Cards that cannot be judged score zero.
So would a high card of five deuces, but as there are only four of them, different cards that can be
judged score more.
-/

namespace CardRoom

theorem Ranking.WellFormed.eq_of_score_eq_zero {r : Ranking} (well : r.WellFormed)
    (nothing : r.score = 0) : r = ⟨.highCard, [0, 0, 0, 0, 0]⟩ := by
  rw [← well.toRanking_score, nothing]
  rfl

namespace Hand

variable {cards : List Card}

/-- There are enough cards, and all of them are of the deck. -/
def IsJudgeable (cards : List Card) : Prop :=
  handSize ≤ cards.length ∧ ∀ c ∈ cards, c.IsValid

instance : Decidable (IsJudgeable cards) := inferInstanceAs (Decidable (_ ∧ _))

/-- Too few cards are counted, and otherwise the first card beyond the deck is named. -/
theorem best_of_not_judgeable (unfit : ¬ IsJudgeable cards) :
    if cards.length < handSize then best cards = .error (.tooFewCards cards.length)
    else ∃ before bad after, cards = before ++ bad :: after ∧ (∀ c ∈ before, c.IsValid) ∧
      ¬ bad.IsValid ∧ best cards = .error (.unknownCard bad) := by
  unfold best
  split
  · rfl
  · rename_i enough
    cases found : cards.find? fun c => !decide c.IsValid with
    | none =>
        refine absurd ⟨Nat.not_lt.mp enough, fun c member => ?_⟩ unfit
        simpa using List.find?_eq_none.mp found c member
    | some bad =>
        obtain ⟨is_bad, before, after, split, earlier⟩ := List.find?_eq_some_iff_append.mp found
        refine ⟨before, bad, after, split, fun c member => ?_, ?_, rfl⟩
        · simpa using earlier c member
        · simpa using is_bad

theorem judge_of_best {r : Ranking} (found : best cards = .ok r) : judge cards = .ok r.score := by
  rw [judge, found]
  rfl

theorem judge_of_error {error : HandError} (refused : best cards = .error error) :
    judge cards = .error error := by
  rw [judge, refused]
  rfl

theorem judge_of_not_judgeable (unfit : ¬ IsJudgeable cards) :
    ∃ error, judge cards = .error error := by
  have refused := best_of_not_judgeable unfit
  split at refused
  · exact ⟨_, judge_of_error refused⟩
  · obtain ⟨-, bad, -, -, -, -, refused⟩ := refused
    exact ⟨_, judge_of_error refused⟩

/-- The score of cards that can be judged is that of five of them. -/
theorem judge_of_judgeable (fit : IsJudgeable cards) :
    ∃ five, five.Sublist cards ∧ five.length = handSize ∧
      judge cards = .ok (ranking five).score := by
  obtain ⟨five, sub, length, found⟩ := best_eq_ranking fit.1 fit.2
  exact ⟨five, sub, length, judge_of_best found⟩

/-- Five different cards do not all have the lowest rank, so they score more than nothing. -/
theorem score_ranking_pos (five : cards.length = 5) (distinct : cards.Nodup)
    (valid : ∀ c ∈ cards, c.IsValid) : 0 < (ranking cards).score := by
  refine Nat.pos_of_ne_zero fun zero => ?_
  have lowest := (ranking_wellFormed five valid).eq_of_score_eq_zero (Score.ext zero)
  have ranks : ranksDown cards = [0, 0, 0, 0, 0] := by
    have kickers := kickers_eq cards
    rw [lowest] at kickers
    exact kickers.symm
  have few := count_rank_le distinct 0
  rw [← count_ranksDown, ranks] at few
  exact absurd few (by decide)

/-- Five deuces, which no deck has, score nothing. -/
example : (ranking [⟨0⟩, ⟨1⟩, ⟨2⟩, ⟨3⟩, ⟨3⟩]).score = 0 := by cbv

end Hand

namespace Player

variable {p : Player} {board : List Card}

theorem score_pos_of_judgeable (distinct : (p.cards board).Nodup)
    (fit : Hand.IsJudgeable (p.cards board)) : 0 < p.score Hand.judge board := by
  obtain ⟨five, sub, length, judged⟩ := Hand.judge_of_judgeable fit
  rw [score, judged]
  exact Hand.score_ranking_pos length (distinct.sublist sub) fun c member =>
    fit.2 c (sub.subset member)

theorem score_of_not_judgeable (unfit : ¬ Hand.IsJudgeable (p.cards board)) :
    p.score Hand.judge board = 0 := by
  obtain ⟨error, refused⟩ := Hand.judge_of_not_judgeable unfit
  rw [score, refused]

end Player

end CardRoom
