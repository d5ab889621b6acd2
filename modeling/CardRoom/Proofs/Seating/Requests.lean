import Mathlib
import CardRoom.Proofs.Seating.Rebalance
import CardRoom.Proofs.Seating.Upkeep

/-! # Requests to a store

Everything that a tournament asks of its store, rebalancing included, and what it does to the
seats of that tournament. As long as only those are seated who are not there already, every
tournament stays well seated and no request touches another tournament.
-/

namespace CardRoom

open Arrangement

theorem BalancerSettings.check_default : ({} : BalancerSettings).check = .ok () := rfl

inductive Operation where
  | openTable (table : TableId)
  | seat (seat : Seat)
  | unseat (player : PlayerId)
  | unseatFirst (table : TableId) (count : Nat)
  | writeStack (player : PlayerId) (stack : Chips)
  | closeEmpty
  | rebalance (settings : BalancerSettings) (accepted : settings.check = .ok ())
      (hand : HandNumber) (restHands : Nat)

/-- What puts a player at a table: he takes a seat there, or a rebalancing reports his move. -/
inductive Occurrence where
  | seated (t : TournamentId) (seat : Seat)
  | moved (t : TournamentId) (hand : HandNumber) (restHands : Nat) (move : Transfer)

namespace Operation

/-- The store after an operation, and what occurred. -/
def perform (store : SeatStore) (t : TournamentId) : Operation → SeatStore × List Occurrence
  | openTable table => (store.openTable t table, [])
  | seat s =>
    match store.seat t s with
    | .ok after => (after, [.seated t s])
    | .error _ => (store, [])
  | unseat player => ((store.unseat t player).2, [])
  | unseatFirst table count =>
    match store.unseatFirst t table count with
    | .ok (_, after) => (after, [])
    | .error _ => (store, [])
  | writeStack player stack =>
    match store.writeStack t player stack with
    | .ok after => (after, [])
    | .error _ => (store, [])
  | closeEmpty => ((store.closeEmpty t).2, [])
  | rebalance settings accepted hand restHands =>
    let rebalanced := Balancer.rebalance ⟨store, settings, accepted⟩ t hand restHands
    (rebalanced.balancer.keeper,
      match rebalanced.result with
      | .ok report => report.moves.map (.moved t hand restHands)
      | .error _ => [])

/-- Nobody is seated who is on record in the tournament already, and no seat used twice. -/
def Admissible (store : SeatStore) (t : TournamentId) : Operation → Prop
  | seat s =>
    s.id ∉ (store.seats t).map Seat.id ∧ s.playerId ∉ (store.seats t).map Seat.playerId
  | _ => True

end Operation

/-- What an operation may do to the seats of its tournament, and what occurs with it. -/
inductive Change (t : TournamentId) (before : List Seat) :
    Operation → List Seat → List Occurrence → Prop
  | unchanged {op : Operation} : Change t before op before []
  | seated {s : Seat} {after : List Seat} (joined : after.Perm (s :: before)) :
      Change t before (.seat s) after [.seated t s]
  | unseated {p : PlayerId} {after : List Seat} (fewer : after.Sublist before) :
      Change t before (.unseat p) after []
  | unseatedFirst {table : TableId} {count : Nat} {after : List Seat}
      (fewer : after.Sublist before) : Change t before (.unseatFirst table count) after []
  | restacked {p : PlayerId} {stack : Chips} {first rest : List Seat} {s : Seat}
      (own : s.playerId = p) (split : before = first ++ s :: rest) :
      Change t before (.writeStack p stack) (first ++ { s with stack } :: rest) []
  | rebalanced {settings : BalancerSettings} {accepted : settings.check = .ok ()}
      {hand : HandNumber} {restHands : Nat} {after : List Seat} {moves : List Transfer}
      (seats : after.Perm (before.map (Seat.afterMoves moves hand)))
      (once : (moves.map Transfer.playerId).Nodup)
      (rested : ∀ p ∈ moves.map Transfer.playerId,
        ∃ s ∈ before, s.playerId = p ∧ s.isRestedAt hand restHands = true) :
      Change t before (.rebalance settings accepted hand restHands) after
        (moves.map (.moved t hand restHands))

namespace Balancer

variable {tables : List SeatedTable} (b : Balancer SeatStore) (well : WellSeated tables)
  (hand : HandNumber) (restHands : Nat)
include well

theorem nodup_moves_report :
    ((reportOf tables (b.plan (inOrder tables) hand restHands) hand).moves.map
      Transfer.playerId).Nodup := by
  have carries := b.plan_carries (well.perm (inOrder_perm tables)) hand restHands
  exact (playerIds_transfers carries).nodup_iff.mpr carries.once

/-- Only those are moved whose seats have rested. -/
theorem rested_of_mem_report {p : PlayerId}
    (reported : p ∈ (reportOf tables (b.plan (inOrder tables) hand restHands) hand).moves.map
      Transfer.playerId) :
    ∃ s ∈ tables.flatMap SeatedTable.seats,
      s.playerId = p ∧ s.isRestedAt hand restHands = true := by
  have ordered := well.perm (inOrder_perm tables)
  have carries := b.plan_carries ordered hand restHands
  have strict := BalancerSettings.one_le_allowedDiff b.accepted
  have moved := (playerIds_transfers carries).mem_iff.mp reported
  obtain ⟨m, member, rfl⟩ := List.mem_map.mp moved
  have on_record := (seat_of_move ordered carries member).1
  refine ⟨_, mem_seats_inOrder.mp on_record, playerId_seatOf _ _, ?_⟩
  have may_move := mayMove_of_mem_plan strict b.settings.moveLimit ordered.players_nodup m member
  rw [mayMove, ← playerId_seatOf (inOrder tables) m.playerId,
    ordered.getElem?_history on_record] at may_move
  exact may_move

end Balancer

/-- An operation keeps its tournament well seated and every other one as it is. -/
structure Proceeds (t : TournamentId) (store after : SeatStore) (op : Operation)
    (occurrences : List Occurrence) : Prop where
  change : Change t (store.seats t) op (after.seats t) occurrences
  well : WellSeated (after.held t)
  others : ∀ u, u ≠ t → after.tables? u = store.tables? u

section

variable {store : SeatStore} {t : TournamentId} {op : Operation} {occurrences : List Occurrence}

theorem Proceeds.none (well : WellSeated (store.held t)) : Proceeds t store store op [] where
  change := .unchanged
  well := well
  others _ _ := rfl

theorem Proceeds.of_tables {tables : List SeatedTable} (well : WellSeated tables)
    (change : Change t (store.seats t) op (tables.flatMap SeatedTable.seats) occurrences) :
    Proceeds t store (store.withTables t tables) op occurrences where
  change := by
    rw [SeatStore.seats_withTables]
    exact change
  well := by
    rw [SeatStore.held_withTables]
    exact well
  others _ other := SeatStore.tables?_withTables_of_ne store other tables

namespace Operation

variable (well : WellSeated (store.held t))
include well

theorem proceeds_openTable (table : TableId) :
    Proceeds t store (store.openTable t table) (.openTable table) [] := by
  rw [SeatStore.openTable_eq]
  split
  · exact Proceeds.of_tables well .unchanged
  · rename_i new
    refine Proceeds.of_tables (well.concat_empty new) ?_
    have same : (store.held t ++ [SeatedTable.empty table]).flatMap SeatedTable.seats =
        store.seats t := by
      simp [SeatStore.seats, SeatedTable.empty]
    rw [same]
    exact .unchanged

theorem proceeds_seat {after : SeatStore} {s : Seat} (admissible : Admissible store t (.seat s))
    (done : store.seat t s = .ok after) :
    Proceeds t store after (.seat s) [.seated t s] := by
  obtain ⟨known, rfl⟩ := SeatStore.seat_eq_ok done
  obtain ⟨still_well, joined⟩ :=
    SeatedTable.modifyTable_push well known admissible.1 admissible.2
  exact Proceeds.of_tables still_well (.seated joined)

theorem proceeds_unseat (p : PlayerId) :
    Proceeds t store (store.unseat t p).2 (.unseat p) [] := by
  unfold SeatStore.unseat
  cases present : store.tables? t with
  | none => exact Proceeds.none well
  | some tables =>
      rw [SeatStore.held_of_present present] at well
      obtain ⟨still_well, fewer⟩ := SeatedTable.modify_thin well
        (fun t => (t.seatFor? p).isSome) (f := (·.remove p)) (fun _ => rfl)
        fun _ => List.eraseP_sublist
      refine Proceeds.of_tables still_well (.unseated ?_)
      rw [SeatStore.seats_of_present present]
      exact fewer

theorem proceeds_unseatFirst {after : SeatStore} {table : TableId} {count : Nat}
    {left : List Seat} (done : store.unseatFirst t table count = .ok (left, after)) :
    Proceeds t store after (.unseatFirst table count) [] := by
  rw [(SeatStore.unseatFirst_eq_ok done).2]
  obtain ⟨still_well, fewer⟩ := SeatedTable.modify_thin well (fun t => t.id = table)
    (f := fun t => { t with seats := t.seats.drop count }) (fun _ => rfl)
    fun _ => List.drop_sublist _ _
  exact Proceeds.of_tables still_well (.unseatedFirst fewer)

theorem proceeds_writeStack {after : SeatStore} {p : PlayerId} {stack : Chips}
    (done : store.writeStack t p stack = .ok after) :
    Proceeds t store after (.writeStack p stack) [] := by
  rw [SeatStore.writeStack_eq_ok done]
  obtain ⟨still_well, same | ⟨first, s, rest, own, split, written⟩⟩ :=
    SeatedTable.modifyHolder_writeStack well p stack
  · exact Proceeds.of_tables still_well (same ▸ .unchanged)
  · exact Proceeds.of_tables still_well (written ▸ .restacked own split)

theorem proceeds_closeEmpty : Proceeds t store (store.closeEmpty t).2 .closeEmpty [] := by
  unfold SeatStore.closeEmpty
  cases present : store.tables? t with
  | none => exact Proceeds.none well
  | some tables =>
      rw [SeatStore.held_of_present present] at well
      refine Proceeds.of_tables (well.filter _) ?_
      rw [SeatedTable.seats_filter_occupied, ← SeatStore.seats_of_present present]
      exact .unchanged

theorem proceeds_rebalance (settings : BalancerSettings) (accepted : settings.check = .ok ())
    (hand : HandNumber) (restHands : Nat) :
    Proceeds t store (perform store t (.rebalance settings accepted hand restHands)).1
      (.rebalance settings accepted hand restHands)
      (perform store t (.rebalance settings accepted hand restHands)).2 := by
  cases present : store.tables? t with
  | none =>
      have missing := Balancer.rebalance_of_absent (b := ⟨store, settings, accepted⟩) present
      simpa only [perform, missing] using Proceeds.none well
  | some tables =>
      rw [SeatStore.held_of_present present] at well
      let b : Balancer SeatStore := ⟨store, settings, accepted⟩
      have found := Balancer.tables?_rebalance (b := b) present well hand restHands
      have fulfilled := b.fulfils_rebalance well hand restHands
      have kept : (perform store t (.rebalance settings accepted hand restHands)).1 =
          (b.rebalance t hand restHands).balancer.keeper := rfl
      have occurred : (perform store t (.rebalance settings accepted hand restHands)).2 =
          (reportOf tables (b.plan (inOrder tables) hand restHands) hand).moves.map
            (.moved t hand restHands) := by
        simp only [perform, Balancer.result_rebalance (b := b) present well hand restHands, b]
      rw [kept, occurred]
      refine ⟨?_, ?_, fun u other => ?_⟩
      · rw [SeatStore.seats_of_present present, SeatStore.seats_of_present found]
        apply Change.rebalanced fulfilled.seats
        · exact b.nodup_moves_report well hand restHands
        · exact fun p reported => b.rested_of_mem_report well hand restHands reported
      · rw [SeatStore.held_of_present found]
        exact fulfilled.well
      · exact Balancer.tables?_rebalance_of_ne present well hand restHands other

/-- Every operation proceeds as it should. -/
theorem proceeds_perform {op : Operation} (admissible : Admissible store t op) :
    Proceeds t store (op.perform store t).1 op (op.perform store t).2 := by
  cases op with
  | openTable table => exact proceeds_openTable well table
  | seat s =>
      cases done : store.seat t s with
      | error e => simpa only [perform, done] using Proceeds.none well
      | ok after => simpa only [perform, done] using proceeds_seat well admissible done
  | unseat p => exact proceeds_unseat well p
  | unseatFirst table count =>
      cases done : store.unseatFirst t table count with
      | error e => simpa only [perform, done] using Proceeds.none well
      | ok result => simpa only [perform, done] using proceeds_unseatFirst well done
  | writeStack p stack =>
      cases done : store.writeStack t p stack with
      | error e => simpa only [perform, done] using Proceeds.none well
      | ok after => simpa only [perform, done] using proceeds_writeStack well done
  | closeEmpty => exact proceeds_closeEmpty well
  | rebalance settings accepted hand restHands =>
      exact proceeds_rebalance well settings accepted hand restHands

end Operation

end

end CardRoom
