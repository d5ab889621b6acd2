import CardRoom.Deck
import CardRoom.Random.Shuffle

/-! # Dealing

A deal takes a freshly shuffled deck, gives each player a hand in turn and then draws the board.
A deal that needs more than a deck is refused before the deck is shuffled.
-/

namespace CardRoom

structure Deal where
  hands : List (List Card)
  board : List Card
  deriving DecidableEq, Repr

namespace Deck

def shuffled {σ : Type} [Shuffler σ] (source : σ) : Deck × σ :=
  let (cards, source) := Shuffler.shuffle source standard.cards
  (⟨cards⟩, source)

def drawHands (size : Nat) : Nat → Deck → List (List Card) × Deck
  | 0, d => ([], d)
  | players + 1, d =>
    let (hand, d) := d.draw size
    let (hands, d) := drawHands size players d
    (hand :: hands, d)

/-- The hands in order and the cards left, read from the top, are the deck read from the top. -/
theorem flatten_drawHands (size players : Nat) (d : Deck) :
    (d.drawHands size players).1.flatten ++ (d.drawHands size players).2.cards.reverse =
      d.cards.reverse := by
  induction players generalizing d with
  | zero => simp [drawHands]
  | succ players ih =>
    simp only [drawHands, List.flatten_cons, List.append_assoc, ih]
    exact draw_append d size

end Deck

/-- Deals `hole` cards to each of `players`, and a board. -/
def deal {σ : Type} [Shuffler σ] (source : σ) (players hole board : Nat) : Option Deal × σ :=
  if Deck.standard.size < players * hole + board then (none, source)
  else
    let (deck, source) := Deck.shuffled source
    let (hands, deck) := Deck.drawHands hole players deck
    (some ⟨hands, (deck.draw board).1⟩, source)

end CardRoom
