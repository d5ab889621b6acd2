import CardRoom.Card
import CardRoom.Hand.Ranking

/-! # The ranking of five cards

The ranks of a hand fall into groups of equal ranks, larger groups first and higher ranks first
among groups of one size. Groups, suits and a run of five ranks decide the category. The
deciding ranks are the run's top rank for a straight, every card's rank for a flush and a high
card, and one rank for each group otherwise.
-/

namespace CardRoom.Hand

def ranksDown (cards : List Card) : List Nat :=
  (cards.map Card.rank).mergeSort fun a b => decide (b ≤ a)

structure Group where
  rank : Nat
  size : Nat
  deriving DecidableEq, Repr

/-- The larger group comes first, and of two equally large the one with the higher rank. -/
def Group.precedes (a b : Group) : Bool :=
  b.size < a.size || (a.size == b.size && b.rank ≤ a.rank)

def groups (ranks : List Nat) : List Group :=
  (ranks.eraseDups.map fun r => ⟨r, ranks.count r⟩).mergeSort Group.precedes

def isFlush (cards : List Card) : Bool :=
  match cards with
  | [] => true
  | first :: rest => rest.all (·.suit == first.suit)

/-- The top rank of five ranks in a run, given highest first. An ace also starts the run up to
the rank 3, whose top is then 3; no other run passes through an ace. -/
def straightTop? (ranks : List Nat) : Option Nat :=
  if ranks = [Card.ace, 3, 2, 1, 0] then some 3
  else
    match ranks with
    | [top, a, b, c, low] =>
      if [top, a, b, c, low].Pairwise (· > ·) ∧ top = low + 4 then some top else none
    | _ => none

/-- The ranking of five cards. Equal cards and codes beyond the deck are classified by the same
rules; five equal ranks make no group of four. -/
def ranking (cards : List Card) : Ranking :=
  let ranks := ranksDown cards
  let groups := groups ranks
  let groupRanks := groups.map Group.rank
  let sizes := groups.map Group.size
  match isFlush cards, straightTop? ranks, sizes with
  | true, some top, _ => ⟨.straightFlush, [top]⟩
  | _, _, 4 :: _ => ⟨.fourOfAKind, groupRanks⟩
  | _, _, 3 :: 2 :: _ => ⟨.fullHouse, groupRanks⟩
  | true, none, _ => ⟨.flush, ranks⟩
  | false, some top, _ => ⟨.straight, [top]⟩
  | false, none, 3 :: _ => ⟨.threeOfAKind, groupRanks⟩
  | false, none, 2 :: 2 :: _ => ⟨.twoPair, groupRanks⟩
  | false, none, 2 :: _ => ⟨.pair, groupRanks⟩
  | false, none, _ => ⟨.highCard, ranks⟩

end CardRoom.Hand
