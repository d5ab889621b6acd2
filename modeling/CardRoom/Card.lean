import CardRoom.Text.Blank
import CardRoom.Text.Quoted

/-! # Cards

A card is a code: four codes per rank, from the deuce up, one for each suit. Codes of the
standard deck lie below 52; a code beyond it still has a rank and a suit but no text. A text
names a card by a rank letter and a suit letter in either case, and a list of cards is such
texts with white space between them.
-/

namespace CardRoom

/-- A card by its code. -/
structure Card where
  code : Nat
  deriving DecidableEq, Repr, Inhabited

namespace Card

def deckSize : Nat := 52

/-- The rank of an ace; the deuce has rank 0. -/
def ace : Nat := 12

/-- The card of a rank (0 to 12) and a suit (0 to 3). -/
def ofRankSuit (rank suit : Nat) : Card := ⟨rank * 4 + suit⟩

def rank (c : Card) : Nat := c.code / 4

def suit (c : Card) : Nat := c.code % 4

def IsValid (c : Card) : Prop := c.code < deckSize

instance (c : Card) : Decidable c.IsValid := inferInstanceAs (Decidable (c.code < deckSize))

/-- The letters of the ranks, from the deuce up. -/
def rankLetters : List Char := ['2', '3', '4', '5', '6', '7', '8', '9', 'T', 'J', 'Q', 'K', 'A']

/-- The letters of the suits: clubs, diamonds, hearts, spades. -/
def suitLetters : List Char := ['c', 'd', 'h', 's']

/-- The letters of a card: rank, then suit, and two question marks for a code beyond the deck. -/
def letters (c : Card) : List Char :=
  if c.IsValid then [rankLetters.getD c.rank '?', suitLetters.getD c.suit '?'] else ['?', '?']

def text (c : Card) : String := String.ofList c.letters

inductive TextError where
  /-- It does not have two characters. -/
  | notTwoLetters (text : List Char)
  | unknownRank (letter : Char)
  | unknownSuit (letter : Char)
  deriving DecidableEq, Repr

def TextError.message : TextError → String
  | .notTwoLetters text =>
    "Card string must have length 2, got " ++ Text.quoted (String.ofList text)
  | .unknownRank letter => "Invalid rank: " ++ letter.toString
  | .unknownSuit letter => "Invalid suit: " ++ letter.toString

/-- The card that a text of two letters names. The rank is looked at first. -/
def ofLetters : List Char → Except TextError Card
  | [r, s] =>
    match rankLetters.idxOf? r.toUpper with
    | none => .error (.unknownRank r)
    | some rank =>
      match suitLetters.idxOf? s.toLower with
      | none => .error (.unknownSuit s)
      | some suit => .ok (ofRankSuit rank suit)
  | text => .error (.notTwoLetters text)

/-- The cards that the words of a text name, or the error of the first word that names none. -/
def listOfLetters (text : List Char) : Except TextError (List Card) :=
  (Text.words text).mapM ofLetters

def ofText (text : String) : Except TextError Card := ofLetters text.toList

def listOfText (text : String) : Except TextError (List Card) := listOfLetters text.toList

@[simp] theorem rank_ofRankSuit {rank suit : Nat} (h : suit < 4) :
    (ofRankSuit rank suit).rank = rank := by
  simp only [Card.rank, ofRankSuit]; omega

@[simp] theorem suit_ofRankSuit {rank suit : Nat} (h : suit < 4) :
    (ofRankSuit rank suit).suit = suit := by
  simp only [Card.suit, ofRankSuit]; omega

theorem ofRankSuit_rank_suit (c : Card) : ofRankSuit c.rank c.suit = c := by
  cases c; simp only [ofRankSuit, rank, suit, Card.mk.injEq]; omega

end Card

end CardRoom
