import CardRoom.Chips
import CardRoom.Identity

/-! # Seats

A seat belongs to one player and names the table where it stands now. It remembers the hand at
which its player was last moved, and a player who was moved lately is not moved again.
-/

namespace CardRoom

structure Seat where
  id : SeatId
  playerId : PlayerId
  tableId : TableId
  /-- The chair, which a player who has just been moved has not got yet. -/
  position : Option Nat
  stack : Chips
  /-- The hand at which the player was last moved. -/
  lastMoved : Option HandNumber
  deriving DecidableEq

/-- A player may be moved if `restHands` hands have passed since the last move. A last move
that lies ahead counts as just made. -/
def isRested (lastMoved : Option HandNumber) (hand : HandNumber) (restHands : Nat) : Bool :=
  match lastMoved with
  | none => true
  | some last => restHands ≤ hand - last

namespace Seat

def fresh (id : SeatId) (playerId : PlayerId) (tableId : TableId) (position : Option Nat)
    (stack : Chips) : Seat :=
  ⟨id, playerId, tableId, position, stack, none⟩

def isRestedAt (s : Seat) (hand : HandNumber) (restHands : Nat) : Bool :=
  isRested s.lastMoved hand restHands

def movedTo (s : Seat) (tableId : TableId) (hand : HandNumber) : Seat :=
  { s with tableId, position := none, lastMoved := some hand }

end Seat

/-- A table with its seats, in the order in which they came. -/
structure SeatedTable where
  id : TableId
  seats : List Seat
  deriving DecidableEq

namespace SeatedTable

def empty (id : TableId) : SeatedTable := ⟨id, []⟩

def count (t : SeatedTable) : Nat := t.seats.length

def players (t : SeatedTable) : List PlayerId := t.seats.map Seat.playerId

end SeatedTable

end CardRoom
