import CardRoom.Payout.Bubble
import CardRoom.Payout.Icm
import CardRoom.Payout.Ladder
import CardRoom.Seating.Relocation
import CardRoom.Tournament.Play

/-! # A tournament from the first hand to the money

Three tables of six start with equal stacks. In each hand every table plays, players without
chips leave, empty tables close and the rest are rebalanced. The tournament ends when no more
players are left than there are prizes, or after a number of hands. What happens is recorded as
events for the audience and notes for the journal, in one list.
-/

namespace CardRoom.Tournament

def tournament : TournamentId := 1

def tableCount : Nat := 3

def seatsPerTable : Nat := 6

def startingStack : Nat := 10000

def handLimit : Nat := 500

def seed : UInt64 := 42

def prizePool : Nat := 18000

/-- Half of the pool for the first place, then three and two tenths. -/
def shares : List Float := [0.5, 0.3, 0.2]

/-- What the audience gets to see. -/
inductive Event where
  | busted (hand : HandNumber) (player : PlayerId) (table : TableId)
  | tableClosed (hand : HandNumber) (table : TableId)
  | moved (hand : HandNumber) (move : Transfer)
  | blocked (hand : HandNumber)
  | bubble (hand : HandNumber) (remaining : Nat)
  | inTheMoney (hand : HandNumber) (remaining : Nat)
  deriving DecidableEq, Repr

/-- One entry of the record of a tournament. -/
inductive Entry where
  | event (e : Event)
  | note (n : Note)
  deriving DecidableEq, Repr

inductive Failure where
  | settings (e : SettingsError)
  | seating (e : StoreError)
  | balancer (e : BalancerError)
  | ladder (e : Ladder.Refusal)
  | storage (e : StoreError)
  | balancing (e : BalancerError)

/-- A tournament between two hands, with its source of cards. -/
structure State (σ : Type) where
  source : σ
  balancer : Balancer SeatStore
  busted : List PlayerId := []
  moveCount : Nat := 0
  bubble : BubbleWatch := {}
  record : List Entry := []

structure Halt (σ : Type) where
  failure : Failure
  state : State σ

/-- Everyone's seat at the start: ids count up from 1 over the tables, which count up from 100. -/
def startingSeats : List Seat :=
  (List.range tableCount).flatMap fun t =>
    (List.range seatsPerTable).map fun i =>
      let id := t * seatsPerTable + i + 1
      .fresh id id (100 + t) (some i) (Chips.ofNat startingStack)

/-- The store with everyone seated. -/
def openingStore : Except StoreError SeatStore :=
  let tables := (List.range tableCount).foldl (fun s t => s.openTable tournament (100 + t))
    ({} : SeatStore)
  startingSeats.foldlM (·.seat tournament) tables

section

variable {σ : Type}

namespace State

def store (s : State σ) : SeatStore := s.balancer.keeper

def withStore (s : State σ) (store : SeatStore) : State σ :=
  { s with balancer := s.balancer.withKeeper store }

def add (s : State σ) (entries : List Entry) : State σ := { s with record := s.record ++ entries }

end State

def recordStack (hand : HandNumber) (table : TableId) (s : State σ) (result : PlayerId × Chips) :
    Except (Halt σ) (State σ) :=
  let (player, stack) := result
  if stack = 0 then
    let (_, store) := s.store.unseat tournament player
    .ok (({ s.withStore store with busted := s.busted ++ [player] }).add
      [.event (.busted hand player table)])
  else
    match s.store.writeStack tournament player stack with
    | .ok store => .ok (s.withStore store)
    | .error e => .error ⟨.storage e, s⟩

/-- Plays a hand at one table. A single player has nobody to play against. -/
def visitTable [Shuffler σ] (hand : HandNumber) (s : State σ) (table : SeatedTable) :
    Except (Halt σ) (State σ) :=
  if table.count < 2 then .ok s
  else
    let ((holdings, notes), source) := playTable s.source hand table
    holdings.foldlM (recordStack hand table.id) (({ s with source }).add (notes.map .note))

def closeTables (hand : HandNumber) (s : State σ) : State σ :=
  let (closed, store) := s.store.closeEmpty tournament
  (s.withStore store).add (closed.map fun table => .event (.tableClosed hand table))

/-- Rebalances after a hand and watches for the bubble. -/
def rebalanceTables (places : Nat) (hand : HandNumber) (s : State σ) : Except (Halt σ) (State σ) :=
  let done := s.balancer.rebalanceByDefault tournament hand
  let s := ({ s with balancer := done.balancer }).add (done.notes.map .note)
  match done.result with
  | .error e => .error ⟨.balancing e, s⟩
  | .ok outcome =>
    let remaining := outcome.remaining
    let (begins, bubble, notes) := s.bubble.observe tournament remaining (places + 1)
    let s := { s with bubble, moveCount := s.moveCount + outcome.moves.length }
    .ok (s.add (outcome.moves.map (fun m => .event (.moved hand m)) ++
      (if outcome.blocked then [.event (.blocked hand)] else []) ++
      notes.map .note ++
      (if begins then [.event (.bubble hand remaining)] else [])))

/-- One hand of the tournament, given its tables. -/
def playRound [Shuffler σ] (places : Nat) (hand : HandNumber) (tables : List SeatedTable)
    (s : State σ) : Except (Halt σ) (State σ) := do
  let s ← tables.foldlM (visitTable hand) s
  rebalanceTables places hand (closeTables hand s)

/-- Plays up to `left` hands from the given one on, until the players are in the money. -/
def playOn [Shuffler σ] (places : Nat) : Nat → HandNumber → State σ → Except (Halt σ) (State σ)
  | 0, _, s => .ok s
  | left + 1, hand, s =>
    match s.store.tables tournament with
    | .error e => .error ⟨.storage e, s⟩
    | .ok tables =>
      let remaining := tally (tables.map SeatedTable.count)
      if remaining ≤ places then .ok (s.add [.event (.inTheMoney hand remaining)])
      else
        match playRound places hand tables s with
        | .error halt => .error halt
        | .ok s => playOn places left (hand + 1) s

end

end CardRoom.Tournament
