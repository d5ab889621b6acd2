import CardRoom.Deal
import CardRoom.Journal
import CardRoom.Pot.Showdown
import CardRoom.Seating.Seat

/-! # A hand at one table

Everyone puts in the same bet, as far as the stack goes, and all hands go to the showdown. In
every fifth hand one player folds, so that chips of a folded player are in the pot. The bet grows
with the number of the hand.
-/

namespace CardRoom.Tournament

def bet (hand : HandNumber) : Chips := Chips.ofNat (200 * (1 + hand / 10))

/-- The player who folds in a hand. -/
def folder? (hand : HandNumber) (seats : List Seat) : Option PlayerId :=
  if hand % 5 = 0 then seats[hand % seats.length]?.map Seat.playerId else none

def contributions (hand : HandNumber) (seats : List Seat) : Contributions :=
  seats.map fun s => (s.playerId, min s.stack (bet hand))

def showdown (hand : HandNumber) (seats : List Seat) (cards : Deal) : Showdown :=
  let folder := folder? hand seats
  { players := seats.zipWith
      (fun s hole =>
        { id := s.playerId
          stack := s.stack - min s.stack (bet hand)
          folded := folder = some s.playerId
          holeCards := some hole })
      cards.hands
    pot := 0
    sidePots := SidePot.layers (contributions hand seats)
    board := cards.board }

def awardNote (table : TableId) (hand : HandNumber) (a : Award) : Note :=
  ⟨.info, s!"table {table} hand {hand}: player {a.playerId} wins {a.amount} " ++
    s!"from pot #{a.potIndex} with {a.score.description}"⟩

def refundNote (table : TableId) (hand : HandNumber) (refund : PlayerId × Chips) : Note :=
  ⟨.info, s!"table {table} hand {hand}: uncalled {refund.2} returned to player {refund.1}"⟩

/-- The stacks after a hand, and the journal of it. A table with too many players for one deck
does not play. -/
def playTable {σ : Type} [Shuffler σ] (source : σ) (hand : HandNumber) (table : SeatedTable) :
    (List (PlayerId × Chips) × List Note) × σ :=
  let (cards, source) := deal source table.count 2 5
  match cards with
  | none => ((table.seats.map fun s => (s.playerId, s.stack), []), source)
  | some cards =>
    let (after, account) := (showdown hand table.seats cards).settle Hand.judge
    ((after.players.map fun p => (p.id, p.stack),
      account.awards.map (awardNote table.id hand) ++
        account.refunds.map (refundNote table.id hand)), source)

end CardRoom.Tournament
