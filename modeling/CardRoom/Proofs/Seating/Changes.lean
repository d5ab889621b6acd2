import Mathlib
import CardRoom.Proofs.Seating.Plan
import CardRoom.Proofs.Seating.Record

/-! # The changes that a plan makes to the record

Where a plan leads is compared with the seats on record. As nobody is moved twice and no table
both gives and takes, what differs is one seat for each move of the plan, table after table.
-/

namespace CardRoom

open Arrangement

/-- The seat of a player, or an empty one for a player without a seat. -/
def seatOf (tables : List SeatedTable) (p : PlayerId) : Seat :=
  ((tables.flatMap SeatedTable.seats).find? (·.playerId = p)).getD (.fresh 0 p 0 none 0)

def idAt (tables : List SeatedTable) (i : Nat) : TableId := (tables.map SeatedTable.id).getD i 0

/-- The seat that a move changes, with the table that it left. -/
def relocationOf (tables : List SeatedTable) (hand : HandNumber) (m : TableMove) : Relocation :=
  ⟨idAt tables m.fromTable, (seatOf tables m.playerId).movedTo (idAt tables m.toTable) hand⟩

section

variable {tables : List SeatedTable}

@[simp] theorem playerId_seatOf (tables : List SeatedTable) (p : PlayerId) :
    (seatOf tables p).playerId = p := by
  unfold seatOf
  cases found : (tables.flatMap SeatedTable.seats).find? (·.playerId = p) with
  | none => rfl
  | some s => simpa using List.find?_some found

theorem idAt_of_getElem? {i : Nat} {t : SeatedTable} (here : tables[i]? = some t) :
    idAt tables i = t.id := by
  simp [idAt, here]

theorem getElem?_ids {i : Nat} (inside : i < tables.length) :
    (tables.map SeatedTable.id)[i]? = some (idAt tables i) := by
  simp [idAt, inside]

namespace WellSeated

variable (well : WellSeated tables)
include well

theorem find?_seat {s : Seat} (member : s ∈ tables.flatMap SeatedTable.seats) :
    (tables.flatMap SeatedTable.seats).find? (·.playerId = s.playerId) = some s :=
  find?_of_mem well.playerIds member

theorem seatOf_eq {s : Seat} (member : s ∈ tables.flatMap SeatedTable.seats) :
    seatOf tables s.playerId = s := by
  rw [seatOf, well.find?_seat member]
  rfl

theorem idAt_inj {i j : Nat} (first : i < tables.length) (second : j < tables.length) :
    idAt tables i = idAt tables j ↔ i = j := by
  have distinct := well.tableIds
  constructor
  · intro same
    have entries : (tables.map SeatedTable.id)[i]? = (tables.map SeatedTable.id)[j]? := by
      rw [getElem?_ids first, getElem?_ids second, same]
    exact (List.getElem?_inj (by simpa using first) distinct).mp entries
  · rintro rfl
    rfl

theorem seat_at {i : Nat} {p : PlayerId} {players : List PlayerId}
    (here : (tables.map SeatedTable.players)[i]? = some players) (member : p ∈ players) :
    seatOf tables p ∈ tables.flatMap SeatedTable.seats ∧
      (seatOf tables p).tableId = idAt tables i := by
  rw [List.getElem?_map] at here
  obtain ⟨t, table, rfl⟩ := Option.map_eq_some_iff.mp here
  obtain ⟨s, seated, rfl⟩ := List.mem_map.mp member
  have listed := List.mem_of_getElem? table
  have on_record : s ∈ tables.flatMap SeatedTable.seats := List.mem_flatMap.mpr ⟨t, listed, seated⟩
  rw [well.seatOf_eq on_record, idAt_of_getElem? table]
  exact ⟨on_record, well.placed t listed s seated⟩

theorem getElem?_seats {p : PlayerId} (member : seatOf tables p ∈ tables.flatMap SeatedTable.seats) :
    (seatsByPlayer tables)[p]? = some (seatOf tables p) := by
  rw [getElem?_seatsByPlayer well.playerIds, ← well.find?_seat member, playerId_seatOf]

/-- The history read from the seats has for each player what his seat remembers. -/
theorem getElem?_history {s : Seat} (member : s ∈ tables.flatMap SeatedTable.seats) :
    (historyOfSeats (seatsByPlayer tables))[s.playerId]? = s.lastMoved := by
  rw [getElem?_historyOfSeats, getElem?_seatsByPlayer well.playerIds, well.find?_seat member,
    Option.bind_some]

end WellSeated

end

section

variable {tables : List SeatedTable} {moves : List TableMove} {final : Tables}
  (well : WellSeated tables) (apart : ∀ m ∈ moves, ∀ n ∈ moves, m.fromTable ≠ n.toTable)
  (carries : Carries (tables.map SeatedTable.players) moves final)
include well carries

theorem seat_of_move {m : TableMove} (member : m ∈ moves) :
    seatOf tables m.playerId ∈ tables.flatMap SeatedTable.seats ∧
      (seatOf tables m.playerId).tableId = idAt tables m.fromTable := by
  obtain ⟨players, here, seated⟩ := carries.seated m member
  exact well.seat_at here seated

include apart

/-- What changes at one table: those who stay are passed by, those who came are moved. -/
theorem changes_at (hand : HandNumber) {i : Nat} {t : SeatedTable} {players : List PlayerId}
    (before : tables[i]? = some t) (after : final[i]? = some players) :
    (players.filterMap fun p => (seatsByPlayer tables)[p]?.bind fun s => relocate? hand s t.id) =
      (arrivals moves i).map (relocationOf tables hand) := by
  have inside := (List.getElem?_eq_some_iff.mp before).1
  have table := idAt_of_getElem? before
  have players_before : (tables.map SeatedTable.players)[i]? = some t.players := by
    rw [List.getElem?_map, before, Option.map_some]
  rw [carries.places, players_before, Option.map_some, Option.some.injEq] at after
  rw [← after, List.filterMap_append]
  have stay : (t.players.filter (· ∉ moves.map TableMove.playerId)).filterMap
      (fun p => (seatsByPlayer tables)[p]?.bind fun s => relocate? hand s t.id) = [] := by
    apply List.filterMap_eq_nil_iff.mpr
    intro p member
    obtain ⟨on_record, stands⟩ := well.seat_at players_before (List.mem_of_mem_filter member)
    rw [well.getElem?_seats on_record, Option.bind_some, relocate?, if_pos (stands.trans table)]
  have come : ∀ m ∈ arrivals moves i,
      ((seatsByPlayer tables)[m.playerId]?.bind fun s => relocate? hand s t.id) =
        some (relocationOf tables hand m) := by
    intro m member
    obtain ⟨listed, leads⟩ := List.mem_filter.mp member
    obtain rfl : m.toTable = i := of_decide_eq_true leads
    obtain ⟨on_record, stands⟩ := seat_of_move well carries listed
    obtain ⟨giver, here, -⟩ := carries.seated m listed
    have giver_inside : m.fromTable < tables.length := by
      simpa using (List.getElem?_eq_some_iff.mp here).1
    have elsewhere : (seatOf tables m.playerId).tableId ≠ t.id := by
      rw [stands, ← table]
      exact fun same => apart m listed m listed ((well.idAt_inj giver_inside inside).mp same)
    rw [well.getElem?_seats on_record, Option.bind_some, relocate?, if_neg elsewhere, stands,
      ← table]
    rfl
  rw [stay, List.nil_append, List.filterMap_map, ← List.filterMap_eq_map]
  exact List.filterMap_congr come

theorem changes_eq (hand : HandNumber) :
    Balancer.changes tables hand final =
      (grouped tables.length moves).map (relocationOf tables hand) := by
  have length : final.length = tables.length := by
    simpa using carries.length_eq
  have seconds : (tables.zip final).map Prod.snd = final := List.map_snd_zip length.le
  have players : ((tables.zip final).flatMap fun entry =>
      entry.2.map (entry.1.id, ·)).map Prod.snd = final.flatten := by
    rw [List.map_flatMap, List.flatMap_def]
    refine congrArg List.flatten (Eq.trans (List.map_congr_left fun entry _ => ?_) seconds)
    simp
  have distinct : (((tables.zip final).flatMap fun entry =>
      entry.2.map (entry.1.id, ·)).map Prod.snd).Nodup := by
    rw [players]
    exact carries.same.nodup_iff.mpr well.players_nodup
  show relocations hand (seatsByPlayer tables) ((tables.zip final).flatMap fun entry =>
    entry.2.map (entry.1.id, ·)) = _
  rw [relocations_eq hand _ distinct, List.filterMap_flatMap, grouped, List.map_flatMap,
    List.flatMap_def, List.flatMap_def]
  refine congrArg List.flatten (List.ext_getElem (by simp [length]) fun i first second => ?_)
  have inside : i < tables.length := by simpa using second
  rw [List.getElem_map, List.getElem_map, List.getElem_range, List.getElem_zip, List.filterMap_map]
  exact changes_at well apart carries hand (List.getElem?_eq_getElem inside)
    (List.getElem?_eq_getElem (length ▸ inside))

end

end CardRoom
