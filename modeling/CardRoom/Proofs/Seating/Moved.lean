import Mathlib
import CardRoom.Proofs.Seating.Batch
import CardRoom.Proofs.Seating.Changes

/-! # The record after the changes

The seats of the moved players replace their old ones. Each table ends up with the players that
the plan gives it, in that order, and all other seats are as they were.
-/

namespace CardRoom

open Arrangement

/-- The seat after moves between tables in a hand. -/
def Seat.afterMoves (moves : List Transfer) (hand : HandNumber) (s : Seat) : Seat :=
  match moves.find? (·.playerId = s.playerId) with
  | none => s
  | some move => s.movedTo move.toTable hand

@[simp] theorem id_afterMoves (moves : List Transfer) (hand : HandNumber) (s : Seat) :
    (s.afterMoves moves hand).id = s.id := by
  unfold Seat.afterMoves
  split <;> rfl

@[simp] theorem playerId_afterMoves (moves : List Transfer) (hand : HandNumber) (s : Seat) :
    (s.afterMoves moves hand).playerId = s.playerId := by
  unfold Seat.afterMoves
  split <;> rfl

theorem map_id_afterMoves (moves : List Transfer) (hand : HandNumber) (seats : List Seat) :
    (seats.map (Seat.afterMoves moves hand)).map Seat.id = seats.map Seat.id := by
  rw [List.map_map]
  exact List.map_congr_left fun s _ => id_afterMoves moves hand s

theorem map_playerId_afterMoves (moves : List Transfer) (hand : HandNumber) (seats : List Seat) :
    (seats.map (Seat.afterMoves moves hand)).map Seat.playerId = seats.map Seat.playerId := by
  rw [List.map_map]
  exact List.map_congr_left fun s _ => playerId_afterMoves moves hand s

/-- A move between places as a move between the tables of these ids. -/
def Transfer.ofMove? (ids : List TableId) (m : TableMove) : Option Transfer := do
  return ⟨m.playerId, ← ids[m.fromTable]?, ← ids[m.toTable]?⟩

section

variable {tables : List SeatedTable} {moves : List TableMove} {final : Tables}
  {hand : HandNumber}

/-- The seats that moves change, as they are afterwards. -/
def movedSeats (tables : List SeatedTable) (moves : List TableMove) (hand : HandNumber) :
    List Seat :=
  (grouped tables.length moves).map fun m => (relocationOf tables hand m).seat

/-- The moves on record, table after table. -/
def transfers (tables : List SeatedTable) (moves : List TableMove) (hand : HandNumber) :
    List Transfer :=
  (grouped tables.length moves).map fun m => (relocationOf tables hand m).move

@[simp] theorem playerId_relocationOf (m : TableMove) :
    (relocationOf tables hand m).seat.playerId = m.playerId :=
  playerId_seatOf tables m.playerId

theorem movedSeats_at (well : WellSeated tables) {i : Nat} {t : SeatedTable} (here : tables[i]? = some t) :
    (movedSeats tables moves hand).filter (·.tableId = t.id) =
      (arrivals moves i).map fun m => (relocationOf tables hand m).seat := by
  have inside := (List.getElem?_eq_some_iff.mp here).1
  have table := idAt_of_getElem? here
  have leads : ∀ m ∈ grouped tables.length moves,
      decide ((relocationOf tables hand m).seat.tableId = t.id) = decide (m.toTable = i) := by
    intro m member
    have taker := (mem_grouped.mp member).2
    rw [decide_eq_decide, ← table]
    exact well.idAt_inj taker inside
  rw [movedSeats, List.filter_map, ← filter_grouped inside]
  exact congrArg _ (List.filter_congr leads)

section

variable (carries : Carries (tables.map SeatedTable.players) moves final)
include carries

theorem inside_of_carries {m : TableMove} (member : m ∈ moves) :
    m.fromTable < tables.length ∧ m.toTable < tables.length := by
  obtain ⟨giver, here, -⟩ := carries.seated m member
  exact ⟨by simpa using (List.getElem?_eq_some_iff.mp here).1, by
    simpa using carries.inside m member⟩

theorem grouped_perm_of_carries : (grouped tables.length moves).Perm moves :=
  grouped_perm fun _ member => (inside_of_carries carries member).2

theorem mem_movedSeats {r : Seat} : r ∈ movedSeats tables moves hand ↔
    ∃ m ∈ moves, (relocationOf tables hand m).seat = r := by
  simp only [movedSeats, List.mem_map, (grouped_perm_of_carries carries).mem_iff]

theorem playerIds_transfers :
    ((transfers tables moves hand).map Transfer.playerId).Perm
      (moves.map TableMove.playerId) := by
  have same : (transfers tables moves hand).map Transfer.playerId =
      (grouped tables.length moves).map TableMove.playerId := by
    rw [transfers, List.map_map]
    exact List.map_congr_left fun m _ => playerId_seatOf tables m.playerId
  rw [same]
  exact (grouped_perm_of_carries carries).map _

theorem transfers_perm : ((transfers tables moves hand).map some).Perm
    (moves.map (Transfer.ofMove? (tables.map SeatedTable.id))) := by
  have same : (transfers tables moves hand).map some =
      (grouped tables.length moves).map (Transfer.ofMove? (tables.map SeatedTable.id)) := by
    rw [transfers, List.map_map]
    apply List.map_congr_left
    intro m member
    obtain ⟨giver, taker⟩ :=
      inside_of_carries carries ((grouped_perm_of_carries carries).mem_iff.mp member)
    simp only [Transfer.ofMove?, getElem?_ids giver, getElem?_ids taker, Function.comp_apply,
      Relocation.move, playerId_relocationOf]
    rfl
  rw [same]
  exact (grouped_perm_of_carries carries).map _

theorem afterMoves_of_mem {m : TableMove} (member : m ∈ moves) :
    (seatOf tables m.playerId).afterMoves (transfers tables moves hand) hand =
      (relocationOf tables hand m).seat := by
  have distinct : ((transfers tables moves hand).map Transfer.playerId).Nodup :=
    (playerIds_transfers carries).nodup_iff.mpr carries.once
  have listed : (relocationOf tables hand m).move ∈ transfers tables moves hand :=
    List.mem_map.mpr ⟨m, (grouped_perm_of_carries carries).mem_iff.mpr member, rfl⟩
  have found := find?_of_mem distinct listed
  rw [Seat.afterMoves, show (seatOf tables m.playerId).playerId =
    (relocationOf tables hand m).move.playerId from rfl, found]
  rfl

theorem afterMoves_of_not_mem {s : Seat} (stays : s.playerId ∉ moves.map TableMove.playerId) :
    s.afterMoves (transfers tables moves hand) hand = s := by
  have absent : s.playerId ∉ (transfers tables moves hand).map Transfer.playerId :=
    fun listed => stays ((playerIds_transfers carries).mem_iff.mp listed)
  rw [Seat.afterMoves, find?_eq_none_of_absent absent]

variable (well : WellSeated tables)
include well

theorem id_mem_movedSeats {s : Seat} (on_record : s ∈ tables.flatMap SeatedTable.seats) :
    s.id ∈ (movedSeats tables moves hand).map Seat.id ↔
      s.playerId ∈ moves.map TableMove.playerId := by
  constructor
  · intro moved
    obtain ⟨r, listed, same⟩ := List.mem_map.mp moved
    obtain ⟨m, member, rfl⟩ := (mem_movedSeats carries).mp listed
    have seat := (seat_of_move well carries member).1
    have own : seatOf tables m.playerId = s :=
      List.inj_on_of_nodup_map well.seatIds seat on_record same
    rw [← own, playerId_seatOf]
    exact List.mem_map_of_mem member
  · intro moved
    obtain ⟨m, member, same⟩ := List.mem_map.mp moved
    refine List.mem_map.mpr ⟨_, (mem_movedSeats carries).mpr ⟨m, member, rfl⟩, ?_⟩
    show (seatOf tables m.playerId).id = s.id
    rw [same, well.seatOf_eq on_record]

theorem nodup_movedSeats : ((movedSeats tables moves hand).map Seat.id).Nodup := by
  have players : (grouped tables.length moves).Pairwise fun m n => m.playerId ≠ n.playerId :=
    List.pairwise_map.mp
      (((grouped_perm_of_carries carries).map TableMove.playerId).nodup_iff.mpr carries.once)
  rw [movedSeats, List.map_map]
  refine List.pairwise_map.mpr (players.imp_of_mem fun {m n} first second apart same => apart ?_)
  have first_seat := (seat_of_move well carries (mem_grouped.mp first).1).1
  have second_seat := (seat_of_move well carries (mem_grouped.mp second).1).1
  have own := List.inj_on_of_nodup_map well.seatIds first_seat second_seat same
  rw [← playerId_seatOf tables m.playerId, own, playerId_seatOf]

theorem seats_afterBatch {i : Nat} {t : SeatedTable} (here : tables[i]? = some t) :
    (SeatedTable.afterBatch (movedSeats tables moves hand) t).seats =
      t.seats.filter (·.playerId ∉ moves.map TableMove.playerId) ++
        (arrivals moves i).map fun m => (relocationOf tables hand m).seat := by
  rw [SeatedTable.afterBatch, latest_of_nodup (nodup_movedSeats carries well),
    movedSeats_at well here]
  refine congrArg (· ++ _) (List.filter_congr fun s member => ?_)
  rw [decide_eq_decide, id_mem_movedSeats carries well
    (List.mem_flatMap.mpr ⟨t, List.mem_of_getElem? here, member⟩)]

theorem players_afterBatch {i : Nat} {t : SeatedTable} (here : tables[i]? = some t) :
    final[i]? = some (SeatedTable.afterBatch (movedSeats tables moves hand) t).players := by
  have players_before : (tables.map SeatedTable.players)[i]? = some t.players := by
    rw [List.getElem?_map, here, Option.map_some]
  have stay : (t.seats.filter (·.playerId ∉ moves.map TableMove.playerId)).map Seat.playerId =
      t.players.filter (· ∉ moves.map TableMove.playerId) := by
    rw [SeatedTable.players, List.filter_map]
    rfl
  have come : ((arrivals moves i).map fun m => (relocationOf tables hand m).seat).map
      Seat.playerId = (arrivals moves i).map TableMove.playerId := by
    rw [List.map_map]
    exact List.map_congr_left fun m _ => playerId_relocationOf m
  rw [carries.places, players_before, Option.map_some, ← stay, ← come, ← List.map_append,
    ← seats_afterBatch carries well here]
  rfl

/-- The batch leads to the seating that the plan leads to. -/
theorem seating_afterBatch :
    (tables.map (SeatedTable.afterBatch (movedSeats tables moves hand))).map
      SeatedTable.players = final := by
  have length : final.length = tables.length := by
    simpa using carries.length_eq
  refine List.ext_getElem? fun i => ?_
  rw [List.getElem?_map, List.getElem?_map]
  cases here : tables[i]? with
  | none =>
      refine (List.getElem?_eq_none ?_).symm
      rw [length]
      exact List.getElem?_eq_none_iff.mp here
  | some t => exact (players_afterBatch carries well here).symm

theorem mem_seats_afterBatch {r : Seat} :
    r ∈ (tables.map (SeatedTable.afterBatch (movedSeats tables moves hand))).flatMap
        SeatedTable.seats ↔
      ∃ s ∈ tables.flatMap SeatedTable.seats,
        s.afterMoves (transfers tables moves hand) hand = r := by
  rw [List.flatMap_map]
  constructor
  · intro present
    obtain ⟨t, listed, here⟩ := List.mem_flatMap.mp present
    obtain ⟨i, place⟩ := List.mem_iff_getElem?.mp listed
    rw [seats_afterBatch carries well place] at here
    rcases List.mem_append.mp here with stayed | came
    · obtain ⟨before, stays⟩ := List.mem_filter.mp stayed
      exact ⟨r, List.mem_flatMap.mpr ⟨t, listed, before⟩,
        afterMoves_of_not_mem carries (of_decide_eq_true stays)⟩
    · obtain ⟨m, member, rfl⟩ := List.mem_map.mp came
      have moved := List.mem_of_mem_filter member
      exact ⟨_, (seat_of_move well carries moved).1, afterMoves_of_mem carries moved⟩
  · rintro ⟨s, on_record, rfl⟩
    by_cases moved : s.playerId ∈ moves.map TableMove.playerId
    · obtain ⟨m, member, same⟩ := List.mem_map.mp moved
      have own : seatOf tables m.playerId = s := by
        rw [same, well.seatOf_eq on_record]
      have place := List.getElem?_eq_getElem (inside_of_carries carries member).2
      rw [← own, afterMoves_of_mem carries member]
      refine List.mem_flatMap.mpr ⟨_, List.mem_of_getElem? place, ?_⟩
      rw [seats_afterBatch carries well place]
      refine List.mem_append_right _ (List.mem_map_of_mem ?_)
      exact List.mem_filter.mpr ⟨member, decide_eq_true rfl⟩
    · obtain ⟨t, listed, before⟩ := List.mem_flatMap.mp on_record
      obtain ⟨i, place⟩ := List.mem_iff_getElem?.mp listed
      rw [afterMoves_of_not_mem carries moved]
      refine List.mem_flatMap.mpr ⟨t, listed, ?_⟩
      rw [seats_afterBatch carries well place]
      exact List.mem_append_left _ (List.mem_filter.mpr ⟨before, decide_eq_true moved⟩)

/-- Every seat is found again, changed by the move of its player if there is one. -/
theorem seats_afterBatch_perm :
    ((tables.map (SeatedTable.afterBatch (movedSeats tables moves hand))).flatMap
        SeatedTable.seats).Perm
      ((tables.flatMap SeatedTable.seats).map
        (Seat.afterMoves (transfers tables moves hand) hand)) := by
  have left : (((tables.map (SeatedTable.afterBatch (movedSeats tables moves hand))).flatMap
      SeatedTable.seats).map Seat.playerId).Nodup := by
    rw [← flatten_players, seating_afterBatch carries well]
    exact carries.same.nodup_iff.mpr well.players_nodup
  have right : (((tables.flatMap SeatedTable.seats).map
      (Seat.afterMoves (transfers tables moves hand) hand)).map Seat.playerId).Nodup := by
    rw [map_playerId_afterMoves]
    exact well.playerIds
  -- Neither side has a player twice, so it is enough that they have the same seats.
  apply (List.perm_ext_iff_of_nodup left.of_map right.of_map).mpr
  intro r
  rw [mem_seats_afterBatch carries well, List.mem_map]

theorem wellSeated_afterBatch :
    WellSeated (tables.map (SeatedTable.afterBatch (movedSeats tables moves hand))) where
  tableIds := by
    rw [SeatedTable.map_id_afterBatch]
    exact well.tableIds
  seatIds := by
    rw [((seats_afterBatch_perm carries well).map Seat.id).nodup_iff, map_id_afterMoves]
    exact well.seatIds
  playerIds := by
    rw [((seats_afterBatch_perm carries well).map Seat.playerId).nodup_iff,
      map_playerId_afterMoves]
    exact well.playerIds
  placed := by
    intro after listed s member
    obtain ⟨t, before, rfl⟩ := List.mem_map.mp listed
    rcases List.mem_append.mp member with stayed | came
    · exact well.placed t before s (List.mem_of_mem_filter stayed)
    · exact of_decide_eq_true (List.mem_filter.mp came).2

end

end

end CardRoom
