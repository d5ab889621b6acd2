import Mathlib
import CardRoom.Proofs.Seating.Batch

/-! # Keeping a batch of seats

A batch is refused as a whole when a seat names a table that is not there. Otherwise each table
keeps the seats whose ids the batch does not have and takes those seats of the batch that name
it and have no later one of their id. Nothing else of the store changes, and a batch that is kept
again changes nothing.
-/

namespace CardRoom

/-- The seats of a batch whose id does not come again in it. -/
def lastOfIds : List Seat → List Seat
  | [] => []
  | s :: rest => if s.id ∈ rest.map Seat.id then lastOfIds rest else s :: lastOfIds rest

variable {batch : List Seat}

theorem mem_of_mem_lastOfIds {r : Seat} (member : r ∈ lastOfIds batch) : r ∈ batch := by
  induction batch with
  | nil => cases member
  | cons s rest ih =>
      unfold lastOfIds at member
      split at member
      · exact List.mem_cons_of_mem _ (ih member)
      · rcases List.mem_cons.mp member with rfl | later
        · exact List.mem_cons_self
        · exact List.mem_cons_of_mem _ (ih later)

theorem lastOfIds_concat (batch : List Seat) (s : Seat) :
    lastOfIds (batch ++ [s]) = (lastOfIds batch).filter (·.id ≠ s.id) ++ [s] := by
  induction batch with
  | nil => rfl
  | cons r batch ih =>
      by_cases again : r.id ∈ batch.map Seat.id
      · have still : r.id ∈ (batch ++ [s]).map Seat.id := by
          rw [List.map_append]
          exact List.mem_append_left _ again
        rw [List.cons_append, lastOfIds, if_pos still, lastOfIds, if_pos again, ih]
      · by_cases same : r.id = s.id
        · have now : r.id ∈ (batch ++ [s]).map Seat.id := by simp [same]
          rw [List.cons_append, lastOfIds, if_pos now, lastOfIds, if_neg again, ih,
            List.filter_cons_of_neg (by simpa using same)]
        · have never : r.id ∉ (batch ++ [s]).map Seat.id := by
            rw [List.map_append, List.mem_append, not_or]
            exact ⟨again, by simpa using same⟩
          rw [List.cons_append, lastOfIds, if_neg never, lastOfIds, if_neg again, ih,
            List.filter_cons_of_pos (by simpa using same), List.cons_append]

/-- Taking away each time the seats of an id before one more is put down leaves the last of each
id. -/
theorem latest_eq_lastOfIds (batch : List Seat) : latest batch = lastOfIds batch := by
  induction batch using List.reverseRecOn with
  | nil => rfl
  | append_singleton batch s ih => rw [latest_concat, lastOfIds_concat, ih]

namespace SeatedTable

theorem afterBatch_afterBatch (batch : List Seat) (t : SeatedTable) :
    afterBatch batch (afterBatch batch t) = afterBatch batch t := by
  have taken : ((latest batch).filter (·.tableId = t.id)).filter (·.id ∉ batch.map Seat.id) = [] := by
    refine List.filter_eq_nil_iff.mpr fun r member untouched => ?_
    have listed := mem_of_mem_lastOfIds (latest_eq_lastOfIds batch ▸ List.mem_of_mem_filter member)
    exact of_decide_eq_true untouched (List.mem_map_of_mem listed)
  have left : (t.seats.filter (·.id ∉ batch.map Seat.id) ++
      (latest batch).filter (·.tableId = t.id)).filter (·.id ∉ batch.map Seat.id) =
        t.seats.filter (·.id ∉ batch.map Seat.id) := by
    rw [List.filter_append, taken, List.append_nil, List.filter_filter]
    simp only [Bool.and_self]
  exact congrArg
    (fun seats => SeatedTable.mk t.id (seats ++ (latest batch).filter (·.tableId = t.id))) left

end SeatedTable

namespace SeatStore

variable {s : SeatStore} {t u : TournamentId} {tables : List SeatedTable}

theorem keep_fst (s : SeatStore) (t : TournamentId) (batch : List Seat) :
    (s.keep t batch).1 = s.checkBatch t batch := by
  obtain ⟨e, refused, same⟩ | ⟨-, rfl, same⟩ | ⟨tables, after, present, known, kept, -⟩ :=
    s.keep_cases t batch
  · rw [same, refused]
  · rw [same]
    rfl
  · rw [kept, checkBatch_eq_ok present known]

theorem tables?_keep_of_ne (s : SeatStore) (batch : List Seat) (other : u ≠ t) :
    (s.keep t batch).2.tables? u = s.tables? u := by
  obtain ⟨e, -, same⟩ | ⟨-, -, same⟩ | ⟨tables, after, -, -, kept, becomes⟩ := s.keep_cases t batch
  · rw [same, tables?_counted]
  · rw [same, tables?_counted]
  · rw [kept, becomes.elsewhere u other, tables?_counted]

theorem tables?_keep_of_none (absent : s.tables? t = none) :
    (s.keep t batch).2.tables? t = none := by
  obtain ⟨e, -, same⟩ | ⟨-, -, same⟩ | ⟨tables, after, present, -⟩ := s.keep_cases t batch
  · rw [same, tables?_counted, absent]
  · rw [same, tables?_counted, absent]
  · rw [absent] at present
    cases present

theorem tables?_keep (present : s.tables? t = some tables)
    (distinct : (tables.map SeatedTable.id).Nodup) (kept : (s.keep t batch).1 = .ok ()) :
    (s.keep t batch).2.tables? t = some (tables.map (SeatedTable.afterBatch batch)) := by
  obtain ⟨e, -, same⟩ | ⟨absent, -⟩ | ⟨others, after, found, -, done, becomes⟩ :=
    s.keep_cases t batch
  · rw [same] at kept
    cases kept
  · rw [present] at absent
    cases absent
  · obtain rfl : tables = others := Option.some.inj (present.symm.trans found)
    rw [done, becomes.here, SeatedTable.foldl_put distinct]

theorem keep_eq_ok_iff : (s.keep t batch).1 = .ok () ↔ ∀ r ∈ batch, s.Knows t r := by
  rw [keep_fst, checkBatch_eq_ok_iff]

theorem keep_eq_error_iff :
    (∃ e, (s.keep t batch).1 = .error e) ↔ ∃ r ∈ batch, ¬ s.Knows t r := by
  have passes : (s.keep t batch).1 = .ok () ↔ ∀ r ∈ batch, s.Knows t r := keep_eq_ok_iff
  cases result : (s.keep t batch).1 with
  | error e => simpa [result] using passes
  | ok done => simpa [result] using passes

theorem tables?_keep_of_error (refused : ∃ e, (s.keep t batch).1 = .error e) (u : TournamentId) :
    (s.keep t batch).2.tables? u = s.tables? u := by
  obtain ⟨e, refused⟩ := refused
  obtain ⟨e, -, same⟩ | ⟨-, -, same⟩ | ⟨tables, after, -, -, kept, -⟩ := s.keep_cases t batch
  · rw [same, tables?_counted]
  · rw [same, tables?_counted]
  · rw [kept] at refused
    cases refused

/-- A batch that was handed in once does nothing when it is handed in again. -/
theorem tables?_keep_keep (distinct : ∀ tables, s.tables? t = some tables →
    (tables.map SeatedTable.id).Nodup) (u : TournamentId) :
    ((s.keep t batch).2.keep t batch).2.tables? u = (s.keep t batch).2.tables? u := by
  by_cases other : u ≠ t
  · exact tables?_keep_of_ne _ batch other
  · obtain rfl : u = t := not_not.mp other
    cases kept : (s.keep u batch).1 with
    | error e =>
        obtain ⟨r, member, unknown⟩ := keep_eq_error_iff.mp ⟨e, kept⟩
        refine tables?_keep_of_error (keep_eq_error_iff.mpr ⟨r, member, ?_⟩) u
        rwa [Knows, tables?_keep_of_error ⟨e, kept⟩]
    | ok done =>
        have known := keep_eq_ok_iff.mp kept
        cases present : s.tables? u with
        | none => rw [tables?_keep_of_none present, tables?_keep_of_none (tables?_keep_of_none present)]
        | some tables =>
            have first := tables?_keep present (distinct tables present) kept
            have same_ids := SeatedTable.map_id_afterBatch batch tables
            have still_known : ∀ r ∈ batch, (s.keep u batch).2.Knows u r := fun r member =>
              ⟨_, first, same_ids ▸ (known r member).listed present⟩
            rw [tables?_keep first (same_ids ▸ distinct tables present)
              (keep_eq_ok_iff.mpr still_known), first, List.map_map]
            exact congrArg some (List.map_congr_left fun table _ =>
              SeatedTable.afterBatch_afterBatch batch table)

/-- Handing in a batch of seats fails just if one of them names a tournament or a table that is not
there, and then no table changes. Otherwise the tables of that tournament, with distinct ids, keep the
seats whose ids are not in the batch and take from it, in its order, the last seats of their ids that
name them; no other tournament changes. Handed in again, the batch leaves the tables as they are. -/
theorem keep_all_or_nothing (s : SeatStore) (t : TournamentId) (batch : List Seat) :
    ((∃ e, (s.keep t batch).1 = .error e) ↔ batch ≠ [] ∧ ∃ r ∈ batch, s.tables? t = none ∨
      ∃ tables, s.tables? t = some tables ∧ r.tableId ∉ tables.map SeatedTable.id) ∧
    ((∃ e, (s.keep t batch).1 = .error e) →
      ∀ u, (s.keep t batch).2.tables? u = s.tables? u) ∧
    ((s.keep t batch).1 = .ok () →
      (∀ u, u ≠ t → (s.keep t batch).2.tables? u = s.tables? u) ∧
      (s.tables? t = none → (s.keep t batch).2.tables? t = none) ∧
      ∀ tables, s.tables? t = some tables → (tables.map SeatedTable.id).Nodup →
        (s.keep t batch).2.tables? t = some (tables.map fun table =>
          ⟨table.id, table.seats.filter (·.id ∉ batch.map Seat.id) ++
            (lastOfIds batch).filter (·.tableId = table.id)⟩)) ∧
    ((∀ tables, s.tables? t = some tables → (tables.map SeatedTable.id).Nodup) →
      ∀ u, ((s.keep t batch).2.keep t batch).2.tables? u = (s.keep t batch).2.tables? u) := by
  refine ⟨?_, tables?_keep_of_error, fun kept => ⟨?_, tables?_keep_of_none, ?_⟩,
    tables?_keep_keep⟩
  · rw [keep_eq_error_iff]
    constructor
    · rintro ⟨r, member, unknown⟩
      refine ⟨List.ne_nil_of_mem member, r, member, ?_⟩
      cases present : s.tables? t with
      | none => exact .inl rfl
      | some tables => exact .inr ⟨tables, rfl, fun listed => unknown ⟨tables, present, listed⟩⟩
    · rintro ⟨-, r, member, absent | ⟨tables, present, unlisted⟩⟩
      · refine ⟨r, member, fun ⟨tables, found, _⟩ => ?_⟩
        rw [absent] at found
        cases found
      · exact ⟨r, member, fun known => unlisted (known.listed present)⟩
  · exact fun u other => tables?_keep_of_ne s batch other
  · intro tables present distinct
    rw [tables?_keep present distinct kept, ← latest_eq_lastOfIds]
    rfl

/-- One player goes to another table and a new one comes, who is put down twice. -/
def crossedBatch : List Seat :=
  [.fresh 12 2 1 none (.ofNat 10), .fresh 11 1 2 none (.ofNat 90), .fresh 12 2 2 none (.ofNat 20)]

/-- Two tables with two players, one of whom is not in the batch. -/
def crossedStore : SeatStore :=
  ({} : SeatStore).withTables 7
    [⟨1, [.fresh 11 1 1 none (.ofNat 90), .fresh 13 3 1 none (.ofNat 50)]⟩, ⟨2, []⟩]

theorem keep_all_or_nothing_crossedBatch :
    ((crossedStore.keep 7 crossedBatch).1 = .ok () ∧ ([1, 2] : List TableId).Nodup) ∧
    (crossedStore.keep 7 crossedBatch).2.tables? 7 =
      some [⟨1, [.fresh 13 3 1 none (.ofNat 50)]⟩,
        ⟨2, [.fresh 11 1 2 none (.ofNat 90), .fresh 12 2 2 none (.ofNat 20)]⟩] ∧
    (∀ u, ((crossedStore.keep 7 crossedBatch).2.keep 7 crossedBatch).2.tables? u =
      (crossedStore.keep 7 crossedBatch).2.tables? u) ∧
    (∃ e, (crossedStore.keep 8 crossedBatch).1 = .error e) ∧
    (crossedStore.keep 8 crossedBatch).2.tables? 7 = crossedStore.tables? 7 := by
  have present : crossedStore.tables? 7 = some
      [⟨1, [.fresh 11 1 1 none (.ofNat 90), .fresh 13 3 1 none (.ofNat 50)]⟩, ⟨2, []⟩] :=
    tables?_withTables _ _ _
  have kept : (crossedStore.keep 7 crossedBatch).1 = .ok () := by decide +kernel
  have distinct : ([1, 2] : List TableId).Nodup := by decide
  have all_distinct : ∀ tables, crossedStore.tables? 7 = some tables →
      (tables.map SeatedTable.id).Nodup := by
    intro tables found
    obtain rfl := Option.some.inj (present.symm.trans found)
    exact distinct
  have refused : ∃ e, (crossedStore.keep 8 crossedBatch).1 = .error e :=
    ⟨.unknownTournament 8, by decide +kernel⟩
  obtain ⟨-, -, changed, again⟩ := keep_all_or_nothing crossedStore 7 crossedBatch
  obtain ⟨-, unchanged, -, -⟩ := keep_all_or_nothing crossedStore 8 crossedBatch
  refine ⟨⟨kept, distinct⟩, ?_, again all_distinct, refused, unchanged refused 7⟩
  rw [(changed kept).2.2 _ present distinct]
  decide

end SeatStore

end CardRoom
