import Std.Data.TreeMap
import CardRoom.Seating.Seat

/-! # The seat store

A store holds the tables of tournaments with their seats. Every operation names a tournament and
touches no other. A batch of seats is kept as a whole or not at all, for the tables that it names
are looked up before anything changes: then, wherever a seat of its id stands, a seat of the batch
takes it away and goes to the end of the table that it names.
-/

namespace CardRoom

inductive StoreError where
  | unknownTournament (t : TournamentId)
  | unknownTable (t : TournamentId) (table : TableId)
  /-- The place where seats are kept has a trouble of its own. -/
  | outage (trouble : String)
  deriving DecidableEq, Repr

def StoreError.message : StoreError → String
  | .unknownTournament t => s!"Tournament {t} not found"
  | .unknownTable t table => s!"Table {table} not found in tournament {t}"
  | .outage trouble => s!"Storage backend error: {trouble}"

/-- A keeper of seats, which may be anywhere: all that balancing asks for. -/
class SeatKeeper (σ : Type) where
  /-- The tables of a tournament with their seats in order. -/
  tables : σ → TournamentId → Except StoreError (List SeatedTable)
  /-- Keeps the changed seats of a tournament, all or none. -/
  keep : σ → TournamentId → List Seat → Except StoreError Unit × σ

structure SeatStore where
  tournaments : Std.TreeMap TournamentId (List SeatedTable) := ∅
  /-- How often a batch was handed in. -/
  batches : Nat := 0

instance : Inhabited SeatStore := ⟨{}⟩

/-! ## Tables of one tournament -/

namespace SeatedTable

def push (t : SeatedTable) (s : Seat) : SeatedTable := { t with seats := t.seats ++ [s] }

def without (t : SeatedTable) (id : SeatId) : SeatedTable :=
  { t with seats := t.seats.filter (·.id ≠ id) }

def seatFor? (t : SeatedTable) (p : PlayerId) : Option Seat := t.seats.find? (·.playerId = p)

def remove (t : SeatedTable) (p : PlayerId) : SeatedTable :=
  { t with seats := t.seats.eraseP (·.playerId = p) }

def writeStack (t : SeatedTable) (p : PlayerId) (stack : Chips) : SeatedTable :=
  { t with seats := t.seats.modify (t.seats.findIdx (·.playerId = p)) ({ · with stack }) }

def modifyTable (tables : List SeatedTable) (id : TableId) (f : SeatedTable → SeatedTable) :
    List SeatedTable :=
  tables.modify (tables.findIdx (·.id = id)) f

def modifyHolder (tables : List SeatedTable) (p : PlayerId) (f : SeatedTable → SeatedTable) :
    List SeatedTable :=
  tables.modify (tables.findIdx fun t => (t.seatFor? p).isSome) f

def findSeat? (tables : List SeatedTable) (p : PlayerId) : Option Seat :=
  tables.findSome? (·.seatFor? p)

end SeatedTable

/-! ## Operations -/

namespace SeatStore

/-- The tables of a tournament, in the order in which they were added. -/
def tables? (s : SeatStore) (t : TournamentId) : Option (List SeatedTable) := s.tournaments[t]?

def withTables (s : SeatStore) (t : TournamentId) (tables : List SeatedTable) : SeatStore :=
  { s with tournaments := s.tournaments.insert t tables }

def tables (s : SeatStore) (t : TournamentId) : Except StoreError (List SeatedTable) :=
  match s.tables? t with
  | some tables => .ok tables
  | none => .error (.unknownTournament t)

def table (s : SeatStore) (t : TournamentId) (id : TableId) : Except StoreError SeatedTable := do
  match (← s.tables t).find? (·.id = id) with
  | some table => return table
  | none => throw (.unknownTable t id)

/-- Opens an empty table, and the tournament with its first one. -/
def openTable (s : SeatStore) (t : TournamentId) (id : TableId) : SeatStore :=
  let tables := (s.tables? t).getD []
  s.withTables t (if tables.any (·.id = id) then tables else tables ++ [.empty id])

/-- Puts a seat at the end of the table that it names. -/
def seat (s : SeatStore) (t : TournamentId) (seat : Seat) : Except StoreError SeatStore := do
  let _ ← s.table t seat.tableId
  return s.withTables t
    (SeatedTable.modifyTable (← s.tables t) seat.tableId (·.push seat))

def seatFor? (s : SeatStore) (t : TournamentId) (p : PlayerId) : Option Seat :=
  (s.tables? t).bind (SeatedTable.findSeat? · p)

def unseat (s : SeatStore) (t : TournamentId) (p : PlayerId) : Option Seat × SeatStore :=
  match s.tables? t with
  | none => (none, s)
  | some tables =>
    (SeatedTable.findSeat? tables p,
      s.withTables t (SeatedTable.modifyHolder tables p (·.remove p)))

def unseatFirst (s : SeatStore) (t : TournamentId) (id : TableId) (count : Nat) :
    Except StoreError (List Seat × SeatStore) := do
  let table ← s.table t id
  return (table.seats.take count,
    s.withTables t (SeatedTable.modifyTable (← s.tables t) id fun table =>
      { table with seats := table.seats.drop count }))

def writeStack (s : SeatStore) (t : TournamentId) (p : PlayerId) (stack : Chips) :
    Except StoreError SeatStore := do
  let tables ← s.tables t
  if (SeatedTable.findSeat? tables p).isSome then
    return s.withTables t (SeatedTable.modifyHolder tables p (·.writeStack p stack))
  else throw (.outage s!"player {p} is not seated")

/-- Closes the tables without players and gives their ids. -/
def closeEmpty (s : SeatStore) (t : TournamentId) : List TableId × SeatStore :=
  match s.tables? t with
  | none => ([], s)
  | some tables =>
    ((tables.filter (·.seats.isEmpty)).map SeatedTable.id,
      s.withTables t (tables.filter (!·.seats.isEmpty)))

def counts (s : SeatStore) (t : TournamentId) : List (TableId × Nat) :=
  ((s.tables? t).getD []).map fun table => (table.id, table.count)

/-- Every seat of the batch names a table of the tournament, or the first one that does not. -/
def checkBatch (s : SeatStore) (t : TournamentId) (batch : List Seat) : Except StoreError Unit :=
  batch.forM fun seat => (s.table t seat.tableId).map fun _ => ()

/-- The store without the seats of an id in a tournament. -/
def discard (s : SeatStore) (t : TournamentId) (id : SeatId) : SeatStore :=
  match s.tables? t with
  | none => s
  | some tables => s.withTables t (tables.map (·.without id))

/-- Puts seats down one after the other, each once the seats of its id are taken away. A seat whose
table is not there stops this, and what was done before it stays. -/
def putDown (s : SeatStore) (t : TournamentId) : List Seat → Except StoreError Unit × SeatStore
  | [] => (.ok (), s)
  | r :: batch =>
    let cleared := s.discard t r.id
    match cleared.seat t r with
    | .error e => (.error e, cleared)
    | .ok next => next.putDown t batch

/-- The store after a batch was handed in, whatever comes of it. -/
def counted (s : SeatStore) : SeatStore := { s with batches := s.batches + 1 }

/-- Keeps a batch of seats. The call is counted even if the batch is refused. -/
def keep (s : SeatStore) (t : TournamentId) (batch : List Seat) :
    Except StoreError Unit × SeatStore :=
  match s.checkBatch t batch with
  | .error e => (.error e, s.counted)
  | .ok _ => s.counted.putDown t batch

instance : SeatKeeper SeatStore := ⟨tables, keep⟩

@[simp] theorem tables?_withTables (s : SeatStore) (t : TournamentId) (tables : List SeatedTable) :
    (s.withTables t tables).tables? t = some tables := by
  simp [tables?, withTables]

theorem tables?_withTables_of_ne (s : SeatStore) {t u : TournamentId} (other : u ≠ t)
    (tables : List SeatedTable) : (s.withTables t tables).tables? u = s.tables? u := by
  simp [tables?, withTables, Std.TreeMap.getElem?_insert, Ne.symm other]

@[simp] theorem batches_withTables (s : SeatStore) (t : TournamentId) (tables : List SeatedTable) :
    (s.withTables t tables).batches = s.batches := rfl

@[simp] theorem tables?_counted (s : SeatStore) (t : TournamentId) :
    s.counted.tables? t = s.tables? t := rfl

@[simp] theorem batches_counted (s : SeatStore) : s.counted.batches = s.batches + 1 := rfl

end SeatStore

end CardRoom
