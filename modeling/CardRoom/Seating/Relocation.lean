import CardRoom.Journal
import CardRoom.Seating.Balance
import CardRoom.Seating.Store
import CardRoom.Settings

/-! # Rebalancing a tournament

A balancer carries out a balancing plan on the seats that a keeper holds. Tables are taken in
the order of their ids and the history of moves is read from the seats. Only seats whose table
has changed are kept anew, in one batch. What happens on the way goes into the journal.
-/

namespace CardRoom

inductive BalancerError where
  | storage (e : StoreError)
  | settings (e : SettingsError)
  deriving DecidableEq, Repr

def BalancerError.message : BalancerError → String
  | .storage e => "Storage error: " ++ e.message
  | .settings e => "Balancer config error: " ++ e.message

/-- A move between two tables, given by their ids. -/
structure Transfer where
  playerId : PlayerId
  fromTable : TableId
  toTable : TableId
  deriving DecidableEq, Repr

/-- What a rebalancing came to. -/
structure RebalanceReport where
  moves : List Transfer := []
  blocked : Bool := false
  /-- How many players are left in the tournament. -/
  remaining : Nat := 0
  deriving DecidableEq, Repr

def RebalanceReport.rebalanced (o : RebalanceReport) : Bool := !o.moves.isEmpty

/-- A seat after its player was moved, with the table that it left. -/
structure Relocation where
  fromTable : TableId
  seat : Seat
  deriving DecidableEq

def Relocation.move (r : Relocation) : Transfer := ⟨r.seat.playerId, r.fromTable, r.seat.tableId⟩

/-- Seats by player. Of several seats of one player the last counts. -/
def seatsByPlayer (tables : List SeatedTable) : Std.TreeMap PlayerId Seat :=
  (tables.flatMap SeatedTable.seats).foldl (fun map s => map.insert s.playerId s) ∅

def historyOfSeats (seats : Std.TreeMap PlayerId Seat) : MoveHistory :=
  seats.foldl
    (fun history player s =>
      match s.lastMoved with
      | some hand => history.insert player hand
      | none => history)
    ∅

/-- The seats that have to change for each player to sit at the table given, in that order. A
player without a seat is passed over. -/
def relocations (hand : HandNumber) :
    Std.TreeMap PlayerId Seat → List (TableId × PlayerId) → List Relocation
  | _, [] => []
  | seats, (table, player) :: rest =>
    match seats[player]? with
    | none => relocations hand seats rest
    | some s =>
      if s.tableId = table then relocations hand seats rest
      else
        let moved := s.movedTo table hand
        ⟨s.tableId, moved⟩ :: relocations hand (seats.insert player moved) rest

def moveNote (t : TournamentId) (hand : HandNumber) (r : Relocation) : Note :=
  ⟨.debug, s!"tournament {t}: moving player {r.seat.playerId} from table {r.fromTable} " ++
    s!"to table {r.seat.tableId} at hand {hand}"⟩

def blockedNote (t : TournamentId) (hand : HandNumber) (restHands : Nat) : Note :=
  ⟨.warn, s!"tournament {t}: tables left unbalanced at hand {hand}, " ++
    s!"every candidate on the fullest table moved within {restHands} hands"⟩

def inOrder (tables : List SeatedTable) : List SeatedTable :=
  tables.mergeSort fun a b => decide (a.id ≤ b.id)

/-- A keeper of seats with accepted settings. -/
structure Balancer (σ : Type) where
  keeper : σ
  settings : BalancerSettings
  accepted : settings.check = .ok ()

/-- What came of a rebalancing: its result, the balancer after it, and the journal of it. -/
structure Rebalanced (σ : Type) where
  result : Except BalancerError RebalanceReport
  balancer : Balancer σ
  notes : List Note

namespace Balancer

variable {σ : Type}

def create (keeper : σ) (settings : BalancerSettings) : Except BalancerError (Balancer σ) :=
  match accepted : settings.check with
  | .ok () => .ok ⟨keeper, settings, accepted⟩
  | .error e => .error (.settings e)

def withKeeper (b : Balancer σ) (keeper : σ) : Balancer σ := { b with keeper }

/-- The plan for tables in order, with a hand and a number of hands to wait between moves. -/
def plan (b : Balancer σ) (tables : List SeatedTable) (hand : HandNumber) (restHands : Nat) :
    BalancePlan :=
  Arrangement.plan ⟨hand, restHands, b.settings.allowedDiff⟩ b.settings.moveLimit
    ⟨tables.map SeatedTable.players, historyOfSeats (seatsByPlayer tables)⟩

def changes (tables : List SeatedTable) (hand : HandNumber) (final : Tables) : List Relocation :=
  relocations hand (seatsByPlayer tables)
    ((tables.zip final).flatMap fun (table, players) => players.map (table.id, ·))

variable [SeatKeeper σ]

/-- Moves players until the tables are balanced, or as far as it goes. -/
def rebalance (b : Balancer σ) (t : TournamentId) (hand : HandNumber) (restHands : Nat) :
    Rebalanced σ :=
  match SeatKeeper.tables b.keeper t with
  | .error e => ⟨.error (.storage e), b, []⟩
  | .ok found =>
    let tables := inOrder found
    let players := tables.map SeatedTable.players
    let remaining := tally (Tables.sizes players)
    if Tables.Balanced b.settings.allowedDiff players then
      ⟨.ok { remaining := remaining }, b, []⟩
    else
      let plan := b.plan tables hand restHands
      let changed := changes tables hand plan.final.tables
      let notes := changed.map (moveNote t hand)
      let (kept, keeper) :=
        if changed.isEmpty then (.ok (), b.keeper)
        else SeatKeeper.keep b.keeper t (changed.map Relocation.seat)
      match kept with
      | .error e => ⟨.error (.storage e), b.withKeeper keeper, notes⟩
      | .ok () =>
        ⟨.ok ⟨changed.map Relocation.move, plan.blocked, remaining⟩, b.withKeeper keeper,
          if plan.blocked then notes ++ [blockedNote t hand restHands] else notes⟩

def rebalanceByDefault (b : Balancer σ) (t : TournamentId) (hand : HandNumber) : Rebalanced σ :=
  b.rebalance t hand b.settings.restHands

end Balancer

end CardRoom
