import Mathlib
import CardRoom.Proofs.Seating.Batch
import CardRoom.Proofs.Seating.Record

/-! # What keeps the record in order

Each operation that names a table or a player changes one table and leaves the others as they
are. Nothing that it puts there can be on record already, so a tournament stays well seated.
-/

namespace CardRoom

/-- The first entry that satisfies `q` is the one that changes. -/
theorem modify_findIdx_cases {α : Type} (q : α → Bool) (f : α → α) (xs : List α) :
    (∀ x ∈ xs, q x = false) ∧ xs.modify (xs.findIdx q) f = xs ∨
      ∃ before x after, xs = before ++ x :: after ∧ q x = true ∧
        xs.modify (xs.findIdx q) f = before ++ f x :: after := by
  induction xs with
  | nil => exact .inl ⟨by simp, rfl⟩
  | cons x xs ih =>
      cases here : q x with
      | true => exact .inr ⟨[], x, xs, rfl, here, by simp [List.findIdx_cons, here]⟩
      | false =>
          obtain ⟨nowhere, same⟩ | ⟨before, y, after, rfl, there, changed⟩ := ih
          · exact .inl ⟨by simpa [here] using nowhere, by simp [List.findIdx_cons, here, same]⟩
          · refine .inr ⟨x :: before, y, after, rfl, there, ?_⟩
            simp [List.findIdx_cons, here, changed]

theorem modify_findIdx_append {α : Type} {q : α → Bool} {before : List α} {x : α}
    (first : ∀ y ∈ before, q y = false) (here : q x = true) (f : α → α) (after : List α) :
    (before ++ x :: after).modify ((before ++ x :: after).findIdx q) f =
      before ++ f x :: after := by
  induction before with
  | nil => simp [List.findIdx_cons, here]
  | cons y before ih =>
      obtain ⟨not_here, later⟩ := List.forall_mem_cons.mp first
      simpa [List.findIdx_cons, not_here] using ih later

theorem seats_push (before : List SeatedTable) (t : SeatedTable) (after : List SeatedTable)
    (s : Seat) :
    ((before ++ t.push s :: after).flatMap SeatedTable.seats).Perm
      (s :: (before ++ t :: after).flatMap SeatedTable.seats) := by
  simp only [SeatedTable.push, List.flatMap_append, List.flatMap_cons]
  grind

namespace WellSeated

variable {before after : List SeatedTable} {t u : SeatedTable}

theorem nil : WellSeated [] := ⟨by simp, by simp, by simp, by simp⟩

/-- One table may be replaced by another of its id that brings nothing twice. -/
theorem replace (well : WellSeated (before ++ t :: after)) (same : u.id = t.id)
    (seatIds : (((before ++ u :: after).flatMap SeatedTable.seats).map Seat.id).Nodup)
    (playerIds : (((before ++ u :: after).flatMap SeatedTable.seats).map Seat.playerId).Nodup)
    (placed : ∀ s ∈ u.seats, s.tableId = t.id) : WellSeated (before ++ u :: after) where
  tableIds := by simpa [same] using well.tableIds
  seatIds := seatIds
  playerIds := playerIds
  placed := by
    intro v listed s member
    rcases List.mem_append.mp listed with first | rest
    · exact well.placed v (by simp [first]) s member
    · rcases List.mem_cons.mp rest with rfl | last
      · exact (placed s member).trans same.symm
      · exact well.placed v (by simp [last]) s member

theorem thin (well : WellSeated (before ++ t :: after)) (same : u.id = t.id)
    (fewer : u.seats.Sublist t.seats) : WellSeated (before ++ u :: after) := by
  have seats : ((before ++ u :: after).flatMap SeatedTable.seats).Sublist
      ((before ++ t :: after).flatMap SeatedTable.seats) := by
    simpa using fewer
  apply well.replace same
  · exact well.seatIds.sublist (seats.map Seat.id)
  · exact well.playerIds.sublist (seats.map Seat.playerId)
  · exact fun s member => well.placed t (by simp) s (fewer.subset member)

theorem push (well : WellSeated (before ++ t :: after)) {s : Seat} (here : s.tableId = t.id)
    (new_id : s.id ∉ ((before ++ t :: after).flatMap SeatedTable.seats).map Seat.id)
    (new_player : s.playerId ∉
      ((before ++ t :: after).flatMap SeatedTable.seats).map Seat.playerId) :
    WellSeated (before ++ t.push s :: after) := by
  have seats := seats_push before t after s
  apply well.replace (u := t.push s) rfl
  · exact (seats.map Seat.id).nodup_iff.mpr (List.nodup_cons.mpr ⟨new_id, well.seatIds⟩)
  · exact (seats.map Seat.playerId).nodup_iff.mpr (List.nodup_cons.mpr ⟨new_player, well.playerIds⟩)
  · intro r member
    rcases List.mem_append.mp member with seated | new
    · exact well.placed t (by simp) r seated
    · rw [List.mem_singleton.mp new, here]

theorem concat_empty (well : WellSeated before) {id : TableId}
    (new : id ∉ before.map SeatedTable.id) : WellSeated (before ++ [.empty id]) where
  tableIds := by
    rw [List.map_append, List.map_singleton, ← List.concat_eq_append]
    exact well.tableIds.concat new
  seatIds := by simpa [SeatedTable.empty] using well.seatIds
  playerIds := by simpa [SeatedTable.empty] using well.playerIds
  placed := by
    intro t listed s member
    rcases List.mem_append.mp listed with known | opened
    · exact well.placed t known s member
    · rw [List.mem_singleton.mp opened] at member
      cases member

theorem filter (well : WellSeated before) (q : SeatedTable → Bool) :
    WellSeated (before.filter q) where
  tableIds := well.tableIds.sublist (List.filter_sublist.map _)
  seatIds := well.seatIds.sublist ((List.filter_sublist.flatMap _).map _)
  playerIds := well.playerIds.sublist ((List.filter_sublist.flatMap _).map _)
  placed t listed := well.placed t (List.mem_of_mem_filter listed)

end WellSeated

namespace SeatedTable

variable {tables : List SeatedTable}

theorem seats_filter_occupied (tables : List SeatedTable) :
    (tables.filter (!·.seats.isEmpty)).flatMap SeatedTable.seats =
      tables.flatMap SeatedTable.seats := by
  induction tables with
  | nil => rfl
  | cons t tables ih =>
      cases empty : t.seats <;> simp [empty, ih]

/-- Seats taken away at one table. -/
theorem modify_thin (well : WellSeated tables) (q : SeatedTable → Bool)
    {f : SeatedTable → SeatedTable} (same : ∀ t, (f t).id = t.id)
    (fewer : ∀ t, (f t).seats.Sublist t.seats) :
    WellSeated (tables.modify (tables.findIdx q) f) ∧
      ((tables.modify (tables.findIdx q) f).flatMap SeatedTable.seats).Sublist
        (tables.flatMap SeatedTable.seats) := by
  obtain ⟨-, untouched⟩ | ⟨before, t, after, rfl, -, changed⟩ := modify_findIdx_cases q f tables
  · rw [untouched]
    exact ⟨well, List.Sublist.refl _⟩
  · rw [changed]
    exact ⟨well.thin (same t) (fewer t), by simpa using fewer t⟩

theorem seats_remove {t : SeatedTable} {first rest : List Seat} {s : Seat}
    (seats : t.seats = first ++ s :: rest) (others : ∀ r ∈ first, r.playerId ≠ s.playerId) :
    (t.remove s.playerId).seats = first ++ rest := by
  show t.seats.eraseP (·.playerId = s.playerId) = first ++ rest
  rw [seats, List.eraseP_append_right _ (by simpa using others),
    List.eraseP_cons_of_pos (by simp)]

/-- A new seat at the end of the table that it names. -/
theorem modifyTable_push (well : WellSeated tables) {s : Seat}
    (known : s.tableId ∈ tables.map SeatedTable.id)
    (new_id : s.id ∉ (tables.flatMap SeatedTable.seats).map Seat.id)
    (new_player : s.playerId ∉ (tables.flatMap SeatedTable.seats).map Seat.playerId) :
    WellSeated (modifyTable tables s.tableId (·.push s)) ∧
      ((modifyTable tables s.tableId (·.push s)).flatMap SeatedTable.seats).Perm
        (s :: tables.flatMap SeatedTable.seats) := by
  unfold modifyTable
  obtain ⟨nowhere, -⟩ | ⟨before, t, after, rfl, here, changed⟩ :=
    modify_findIdx_cases (fun t => t.id = s.tableId) (·.push s) tables
  · obtain ⟨t, member, same⟩ := List.mem_map.mp known
    exact absurd same (of_decide_eq_false (nowhere t member))
  · rw [changed]
    exact ⟨well.push (of_decide_eq_true here).symm new_id new_player, seats_push before t after s⟩

/-- A new stack at the seat of a player, if he has one. -/
theorem modifyHolder_writeStack (well : WellSeated tables) (p : PlayerId) (stack : Chips) :
    WellSeated (modifyHolder tables p (·.writeStack p stack)) ∧
      ((modifyHolder tables p (·.writeStack p stack)).flatMap SeatedTable.seats =
          tables.flatMap SeatedTable.seats ∨
        ∃ first s rest, s.playerId = p ∧
          tables.flatMap SeatedTable.seats = first ++ s :: rest ∧
          (modifyHolder tables p (·.writeStack p stack)).flatMap SeatedTable.seats =
            first ++ { s with stack } :: rest) := by
  unfold modifyHolder
  obtain ⟨-, untouched⟩ | ⟨before, t, after, rfl, -, changed⟩ :=
    modify_findIdx_cases (fun t => (t.seatFor? p).isSome) (·.writeStack p stack) tables
  · rw [untouched]
    exact ⟨well, .inl rfl⟩
  · rw [changed]
    obtain ⟨-, same⟩ | ⟨first, s, rest, seats, mine, written⟩ :=
      modify_findIdx_cases (fun s : Seat => s.playerId = p) ({ · with stack }) t.seats
    · rw [SeatedTable.writeStack, same]
      exact ⟨well, .inl rfl⟩
    · have seats_after : (t.writeStack p stack).seats = first ++ { s with stack } :: rest := written
      have all : (before ++ t :: after).flatMap SeatedTable.seats =
          (before.flatMap SeatedTable.seats ++ first) ++ s ::
            (rest ++ after.flatMap SeatedTable.seats) := by
        simp [seats]
      have all_after : (before ++ t.writeStack p stack :: after).flatMap SeatedTable.seats =
          (before.flatMap SeatedTable.seats ++ first) ++ { s with stack } ::
            (rest ++ after.flatMap SeatedTable.seats) := by
        simp [seats_after]
      refine ⟨well.replace rfl ?_ ?_ ?_, .inr ⟨_, s, _, of_decide_eq_true mine, all, all_after⟩⟩
      · simpa [all, all_after] using well.seatIds
      · simpa [all, all_after] using well.playerIds
      · intro r member
        rw [seats_after] at member
        have placed := well.placed t (by simp)
        rw [seats] at placed
        rcases List.mem_append.mp member with earlier | later
        · exact placed r (by simp [earlier])
        · rcases List.mem_cons.mp later with rfl | later
          · exact placed s (by simp)
          · exact placed r (by simp [later])

end SeatedTable

namespace SeatStore

variable {store after : SeatStore} {t : TournamentId}

/-- The tables of a tournament, none if there is no such tournament. -/
def held (store : SeatStore) (t : TournamentId) : List SeatedTable := (store.tables? t).getD []

def seats (store : SeatStore) (t : TournamentId) : List Seat :=
  (store.held t).flatMap SeatedTable.seats

@[simp] theorem held_withTables (store : SeatStore) (t : TournamentId)
    (tables : List SeatedTable) : (store.withTables t tables).held t = tables := by
  simp [held]

@[simp] theorem seats_withTables (store : SeatStore) (t : TournamentId)
    (tables : List SeatedTable) :
    (store.withTables t tables).seats t = tables.flatMap SeatedTable.seats := by
  simp [seats]

theorem held_of_present {tables : List SeatedTable} (present : store.tables? t = some tables) :
    store.held t = tables := by
  rw [held, present, Option.getD_some]

theorem seats_of_present {tables : List SeatedTable} (present : store.tables? t = some tables) :
    store.seats t = tables.flatMap SeatedTable.seats := by
  rw [seats, held_of_present present]

theorem openTable_eq (store : SeatStore) (t : TournamentId) (id : TableId) :
    store.openTable t id = store.withTables t
      (if id ∈ (store.held t).map SeatedTable.id then store.held t
        else store.held t ++ [.empty id]) := by
  simp [openTable, held]

theorem table_eq_ok {id : TableId} {table : SeatedTable} (found : store.table t id = .ok table) :
    ∃ tables, store.tables? t = some tables ∧ tables.find? (·.id = id) = some table := by
  unfold SeatStore.table SeatStore.tables at found
  cases present : store.tables? t with
  | none => simp [present, bind, Except.bind] at found
  | some tables =>
      simp only [present, bind, Except.bind] at found
      cases listed : tables.find? (·.id = id) with
      | none => simp [listed, throw, throwThe, MonadExceptOf.throw] at found
      | some first =>
          simp only [listed, pure, Except.pure, Except.ok.injEq] at found
          subst found
          exact ⟨tables, rfl, listed⟩

theorem seat_eq_ok {s : Seat} (done : store.seat t s = .ok after) :
    s.tableId ∈ (store.held t).map SeatedTable.id ∧
      after = store.withTables t
        (SeatedTable.modifyTable (store.held t) s.tableId (·.push s)) := by
  unfold SeatStore.seat at done
  cases found : store.table t s.tableId with
  | error e => simp [found, bind, Except.bind] at done
  | ok table =>
      obtain ⟨tables, present, first⟩ := table_eq_ok found
      rw [held_of_present present]
      simp only [found, SeatStore.tables, present, bind, Except.bind, pure, Except.pure,
        Except.ok.injEq] at done
      have same : table.id = s.tableId := by simpa using List.find?_some first
      exact ⟨List.mem_map.mpr ⟨table, List.mem_of_find?_eq_some first, same⟩, done.symm⟩

theorem unseatFirst_eq_ok {id : TableId} {count : Nat} {left : List Seat}
    (done : store.unseatFirst t id count = .ok (left, after)) :
    (∃ table, (store.held t).find? (·.id = id) = some table ∧ left = table.seats.take count) ∧
      after = store.withTables t (SeatedTable.modifyTable (store.held t) id fun table =>
        { table with seats := table.seats.drop count }) := by
  unfold SeatStore.unseatFirst at done
  cases found : store.table t id with
  | error e => simp [found, bind, Except.bind] at done
  | ok table =>
      obtain ⟨tables, present, first⟩ := table_eq_ok found
      rw [held_of_present present]
      simp only [found, SeatStore.tables, present, bind, Except.bind, pure, Except.pure,
        Except.ok.injEq, Prod.mk.injEq] at done
      exact ⟨⟨table, first, done.1.symm⟩, done.2.symm⟩

theorem writeStack_eq_ok {p : PlayerId} {stack : Chips}
    (done : store.writeStack t p stack = .ok after) :
    after = store.withTables t
      (SeatedTable.modifyHolder (store.held t) p (·.writeStack p stack)) := by
  unfold SeatStore.writeStack SeatStore.tables at done
  cases present : store.tables? t with
  | none => simp [present, bind, Except.bind] at done
  | some tables =>
      rw [held_of_present present]
      simp only [present, bind, Except.bind, pure, Except.pure] at done
      split at done
      · exact (Except.ok.inj done).symm
      · cases done

end SeatStore

end CardRoom
