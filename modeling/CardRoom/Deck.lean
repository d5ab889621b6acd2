import CardRoom.Card

/-! # The deck

A deck is a list of cards whose last card is on top. Drawing takes cards from the top, the
topmost first, and takes fewer when the deck runs out.
-/

namespace CardRoom

/-- The cards of a deck, the top one last. -/
structure Deck where
  cards : List Card
  deriving DecidableEq, Repr, Inhabited

namespace Deck

def standard : Deck := ⟨(List.range Card.deckSize).map Card.mk⟩

def size (d : Deck) : Nat := d.cards.length

def isEmpty (d : Deck) : Bool := d.cards.isEmpty

/-- The `n` topmost cards, and the deck without them. -/
def draw (d : Deck) (n : Nat) : List Card × Deck :=
  (d.cards.reverse.take n, ⟨d.cards.take (d.cards.length - n)⟩)

@[simp] theorem size_standard : standard.size = Card.deckSize := by
  simp [size, standard]

theorem draw_append (d : Deck) (n : Nat) :
    (d.draw n).1 ++ (d.draw n).2.cards.reverse = d.cards.reverse := by
  simp only [draw]
  rw [← List.drop_reverse]
  exact List.take_append_drop n d.cards.reverse

end Deck

end CardRoom
