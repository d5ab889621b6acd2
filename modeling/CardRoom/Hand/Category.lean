/-! # Categories of hands

The nine categories from the weakest up. A category fixes how many ranks decide between two
hands of it.
-/

namespace CardRoom

inductive Category where
  | highCard
  | pair
  | twoPair
  | threeOfAKind
  | straight
  | flush
  | fullHouse
  | fourOfAKind
  | straightFlush
  deriving DecidableEq, Repr, Inhabited

namespace Category

/-- From the weakest to the strongest. -/
def all : List Category :=
  [highCard, pair, twoPair, threeOfAKind, straight, flush, fullHouse, fourOfAKind, straightFlush]

/-- The place among the categories, the weakest at 0. -/
def strength : Category → Nat
  | highCard => 0
  | pair => 1
  | twoPair => 2
  | threeOfAKind => 3
  | straight => 4
  | flush => 5
  | fullHouse => 6
  | fourOfAKind => 7
  | straightFlush => 8

def ofStrength? (n : Nat) : Option Category := all[n]?

/-- How many ranks a hand of the category carries. -/
def rankCount : Category → Nat
  | straightFlush | straight => 1
  | fourOfAKind | fullHouse => 2
  | twoPair | threeOfAKind => 3
  | pair => 4
  | flush | highCard => 5

def name : Category → String
  | highCard => "HighCard"
  | pair => "Pair"
  | twoPair => "TwoPair"
  | threeOfAKind => "ThreeOfAKind"
  | straight => "Straight"
  | flush => "Flush"
  | fullHouse => "FullHouse"
  | fourOfAKind => "FourOfAKind"
  | straightFlush => "StraightFlush"

def ofName? (s : String) : Option Category := all.find? (·.name == s)

def description : Category → String
  | highCard => "High card"
  | pair => "One pair"
  | twoPair => "Two pair"
  | threeOfAKind => "Three of a kind"
  | straight => "Straight"
  | flush => "Flush"
  | fullHouse => "Full house"
  | fourOfAKind => "Four of a kind"
  | straightFlush => "Straight flush"

instance : Ord Category := ⟨fun a b => compare a.strength b.strength⟩

@[simp] theorem ofStrength?_strength (c : Category) : ofStrength? c.strength = some c := by
  cases c <;> rfl

theorem strength_lt (c : Category) : c.strength < 9 := by
  cases c <;> decide

theorem strength_injective {a b : Category} (same : a.strength = b.strength) : a = b := by
  have h := ofStrength?_strength a
  rw [same, ofStrength?_strength b] at h
  exact (Option.some.inj h).symm

end Category

end CardRoom
