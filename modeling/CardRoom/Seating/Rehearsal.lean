import CardRoom.Seating.Store

/-! # A keeper for rehearsals

A rehearsal stands in front of a store. It can be told to fail at reading or at keeping seats, and
it can follow a script: then it shows the tables of the script for any tournament and only
takes down what it is given to keep.
-/

namespace CardRoom

structure Rehearsal where
  store : SeatStore := {}
  /-- The trouble that reading runs into. -/
  troubleReading : Option String := none
  /-- The trouble that keeping runs into. -/
  troubleKeeping : Option String := none
  /-- The tables that are shown while a script is followed. -/
  script : Option (List SeatedTable) := none
  /-- What was taken down since the script was last set. -/
  taken : List Seat := []

namespace Rehearsal

def tables (r : Rehearsal) (t : TournamentId) : Except StoreError (List SeatedTable) :=
  match r.troubleReading, r.script with
  | some trouble, _ => .error (.outage trouble)
  | none, some tables => .ok tables
  | none, none => SeatKeeper.tables r.store t

def keep (r : Rehearsal) (t : TournamentId) (batch : List Seat) :
    Except StoreError Unit × Rehearsal :=
  match r.troubleKeeping, r.script with
  | some trouble, _ => (.error (.outage trouble), r)
  | none, some _ => (.ok (), { r with taken := r.taken ++ batch })
  | none, none =>
    let (result, store) := SeatKeeper.keep r.store t batch
    (result, { r with store })

/-- Follows a script from now on, or none. -/
def follow (r : Rehearsal) (script : Option (List SeatedTable)) : Rehearsal :=
  { r with script, taken := [] }

instance : SeatKeeper Rehearsal := ⟨tables, keep⟩

end Rehearsal

end CardRoom
