import CardRoom.Hand.Five

/-! # The best five of many cards

A hand of five or more cards is worth as much as the best five of them. All choices of five
places are tried, choices of earlier places first, and of equally strong choices the first one
gives the ranking.
-/

namespace CardRoom

inductive HandError where
  | tooFewCards (got : Nat)
  | unknownCard (card : Card)
  deriving DecidableEq, Repr

def HandError.message : HandError → String
  | .tooFewCards got => s!"Need at least 5 cards to evaluate a hand, got {got}"
  | .unknownCard card => s!"Invalid card code {card.code}, expected 0..=51"

/-- A way to judge a list of cards. -/
abbrev Judge := List Card → Except HandError Score

namespace Hand

def handSize : Nat := 5

/-- The choices of `n` entries, each in the order of the list, choices of earlier entries first. -/
def choices {α : Type} : Nat → List α → List (List α)
  | 0, _ => [[]]
  | _ + 1, [] => []
  | n + 1, x :: xs => (choices n xs).map (x :: ·) ++ choices (n + 1) xs

def strongest? (rankings : List Ranking) : Option Ranking :=
  rankings.foldl
    (fun best r =>
      match best with
      | none => some r
      | some b => if b.score < r.score then some r else some b)
    none

/-- The ranking of the best five cards. Too few cards are noticed before a code beyond the deck. -/
def best (cards : List Card) : Except HandError Ranking :=
  if cards.length < handSize then .error (.tooFewCards cards.length)
  else
    match cards.find? fun c => !decide c.IsValid with
    | some bad => .error (.unknownCard bad)
    | none =>
      match strongest? ((choices handSize cards).map ranking) with
      | some r => .ok r
      | none => .error (.tooFewCards cards.length)

def judge : Judge := fun cards => (best cards).map Ranking.score

theorem mem_choices {α : Type} {n : Nat} {xs c : List α} :
    c ∈ choices n xs ↔ c.Sublist xs ∧ c.length = n := by
  induction xs generalizing n c with
  | nil =>
    cases n with
    | zero => simp [choices]
    | succ n =>
      simp only [choices, List.not_mem_nil, List.sublist_nil, false_iff]
      rintro ⟨rfl, h⟩
      simp at h
  | cons x xs ih =>
    cases n with
    | zero =>
      simp only [choices, List.mem_singleton]
      constructor
      · rintro rfl
        simp
      · exact fun h => List.eq_nil_of_length_eq_zero h.2
    | succ n =>
      simp only [choices, List.mem_append, List.mem_map, ih, List.sublist_cons_iff]
      constructor
      · rintro (⟨d, ⟨sub, len⟩, rfl⟩ | ⟨sub, len⟩)
        · exact ⟨.inr ⟨d, rfl, sub⟩, by simp [len]⟩
        · exact ⟨.inl sub, len⟩
      · rintro ⟨sub | ⟨d, rfl, sub⟩, len⟩
        · exact .inr ⟨sub, len⟩
        · exact .inl ⟨d, ⟨sub, by simpa using len⟩, rfl⟩

end Hand

end CardRoom
