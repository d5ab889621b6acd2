import Mathlib
import CardRoom.Seating.Store

/-! # What a batch of seats does to the tables

A seat of a batch that has a later seat of its own id in the batch leaves no trace. The others
stand at the ends of their tables in the order of the batch, behind the seats that the batch
does not touch. Putting down a seat takes no table away, so once every table that the batch names
was found, each seat finds its table too, and no batch stops half-way.
-/

namespace CardRoom

/-- The seats of a batch that have no later one of their id. -/
def latest (batch : List Seat) : List Seat :=
  batch.foldl (fun kept s => kept.filter (·.id ≠ s.id) ++ [s]) []

theorem latest_concat (batch : List Seat) (s : Seat) :
    latest (batch ++ [s]) = (latest batch).filter (·.id ≠ s.id) ++ [s] := by
  simp only [latest, List.foldl_append, List.foldl_cons, List.foldl_nil]

theorem latest_of_nodup {batch : List Seat} (distinct : (batch.map Seat.id).Nodup) :
    latest batch = batch := by
  induction batch using List.reverseRecOn with
  | nil => rfl
  | append_singleton batch s ih =>
      rw [List.map_append, List.nodup_append] at distinct
      obtain ⟨earlier, -, apart⟩ := distinct
      rw [latest_concat, ih earlier, List.filter_eq_self.mpr]
      intro r member
      exact decide_eq_true (apart r.id (List.mem_map_of_mem member) s.id (by simp))

namespace SeatedTable

variable {tables : List SeatedTable} {batch : List Seat}

theorem modifyTable_eq_map (distinct : (tables.map SeatedTable.id).Nodup) (table : TableId)
    (f : SeatedTable → SeatedTable) :
    modifyTable tables table f = tables.map fun t => if t.id = table then f t else t := by
  unfold modifyTable
  induction tables with
  | nil => rfl
  | cons t ts ih =>
      obtain ⟨absent, later⟩ := List.nodup_cons.mp distinct
      by_cases here : t.id = table
      · have untouched : ts.map (fun u => if u.id = table then f u else u) = ts := by
          refine (List.map_congr_left fun u member => if_neg ?_).trans ts.map_id
          intro same
          exact absent (List.mem_map.mpr ⟨u, member, same.trans here.symm⟩)
        simp [List.findIdx_cons, here, untouched]
      · simp [List.findIdx_cons, here, ih later]

/-- A table after a batch was kept. -/
def afterBatch (batch : List Seat) (t : SeatedTable) : SeatedTable :=
  { t with seats := t.seats.filter (·.id ∉ batch.map Seat.id) ++
      (latest batch).filter (·.tableId = t.id) }

@[simp] theorem afterBatch_nil (t : SeatedTable) : afterBatch [] t = t := by
  simp [afterBatch, latest]

theorem map_id_afterBatch (batch : List Seat) (tables : List SeatedTable) :
    (tables.map (afterBatch batch)).map SeatedTable.id = tables.map SeatedTable.id := by
  rw [List.map_map]
  rfl

theorem afterBatch_concat (batch : List Seat) (s : Seat) (t : SeatedTable) :
    afterBatch (batch ++ [s]) t =
      if t.id = s.tableId then ((afterBatch batch t).without s.id).push s
      else (afterBatch batch t).without s.id := by
  have kept : (t.seats.filter (·.id ∉ batch.map Seat.id)).filter (·.id ≠ s.id) =
      t.seats.filter (·.id ∉ (batch ++ [s]).map Seat.id) := by
    rw [List.filter_filter]
    apply List.filter_congr
    intro r _
    rw [← Bool.decide_and, decide_eq_decide, List.map_append, List.mem_append, not_or, and_comm,
      List.map_singleton, List.mem_singleton]
  have joined : ((latest batch).filter (·.id ≠ s.id)).filter (·.tableId = t.id) =
      ((latest batch).filter (·.tableId = t.id)).filter (·.id ≠ s.id) := List.filter_comm ..
  by_cases here : t.id = s.tableId
  · rw [if_pos here, afterBatch, latest_concat, List.filter_append, joined, ← kept,
      List.filter_eq_self.mpr (show ∀ r ∈ [s], decide (r.tableId = t.id) = true by simp [here])]
    simp only [afterBatch, without, push, List.filter_append, List.append_assoc]
  · rw [if_neg here, afterBatch, latest_concat, List.filter_append, joined, ← kept,
      List.filter_eq_nil_iff.mpr (show ∀ r ∈ [s], ¬ decide (r.tableId = t.id) = true by
        simp [Ne.symm here])]
    simp only [afterBatch, without, List.filter_append, List.append_nil]

/-- The tables after one seat of a batch was put down at a table that is there. -/
def put (tables : List SeatedTable) (s : Seat) : List SeatedTable :=
  modifyTable (tables.map (·.without s.id)) s.tableId (·.push s)

theorem map_id_without (tables : List SeatedTable) (id : SeatId) :
    (tables.map (·.without id)).map SeatedTable.id = tables.map SeatedTable.id := by
  rw [List.map_map]
  rfl

theorem map_id_push (tables : List SeatedTable) (table : TableId) (s : Seat) :
    (modifyTable tables table (·.push s)).map SeatedTable.id = tables.map SeatedTable.id := by
  apply List.ext_getElem?
  intro i
  rw [modifyTable, List.getElem?_map, List.getElem?_modify, List.getElem?_map,
    Option.map_eq_map, Option.map_map]
  refine congrArg (Option.map · _) (funext fun t => ?_)
  by_cases here : tables.findIdx (·.id = table) = i
  · simp only [Function.comp, if_pos here, push]
  · simp only [Function.comp, if_neg here]

theorem map_id_put (tables : List SeatedTable) (s : Seat) :
    (put tables s).map SeatedTable.id = tables.map SeatedTable.id := by
  rw [put, map_id_push, map_id_without]

theorem put_eq_map (distinct : (tables.map SeatedTable.id).Nodup) (s : Seat) :
    put tables s =
      tables.map fun t => if t.id = s.tableId then (t.without s.id).push s else t.without s.id := by
  rw [put, modifyTable_eq_map (map_id_without tables s.id ▸ distinct), List.map_map]
  rfl

/-- With distinct table ids, a batch works on every table by itself. -/
theorem foldl_put (distinct : (tables.map SeatedTable.id).Nodup) (batch : List Seat) :
    batch.foldl put tables = tables.map (afterBatch batch) := by
  -- Induction from the end, for the last seat of a batch is put down after all others.
  induction batch using List.reverseRecOn with
  | nil =>
      rw [List.foldl_nil, List.map_congr_left fun t _ => afterBatch_nil t, List.map_id']
  | append_singleton batch s ih =>
      rw [List.foldl_append, List.foldl_cons, List.foldl_nil, ih,
        put_eq_map (map_id_afterBatch batch tables ▸ distinct), List.map_map]
      exact List.map_congr_left fun t _ => (afterBatch_concat batch s t).symm

end SeatedTable

namespace SeatStore

variable {s : SeatStore} {t : TournamentId} {tables : List SeatedTable} {batch : List Seat}

/-- The tournament has the table that a seat names. -/
def Knows (s : SeatStore) (t : TournamentId) (r : Seat) : Prop :=
  ∃ tables, s.tables? t = some tables ∧ r.tableId ∈ tables.map SeatedTable.id

theorem Knows.listed {r : Seat} (known : s.Knows t r) (present : s.tables? t = some tables) :
    r.tableId ∈ tables.map SeatedTable.id := by
  obtain ⟨others, found, there⟩ := known
  obtain rfl : tables = others := Option.some.inj (present.symm.trans found)
  exact there

theorem table_eq_ok_iff {r : Seat} : (∃ table, s.table t r.tableId = .ok table) ↔ s.Knows t r := by
  cases present : s.tables? t with
  | none => simp [SeatStore.table, SeatStore.tables, Knows, present, bind, Except.bind]
  | some tables =>
      have listed : r.tableId ∈ tables.map SeatedTable.id ↔
          (tables.find? (·.id = r.tableId)).isSome := by
        simp [List.find?_isSome]
      simp only [Knows, present, Option.some.injEq, exists_eq_left', listed]
      simp only [SeatStore.table, SeatStore.tables, present, bind, Except.bind]
      cases tables.find? (·.id = r.tableId) with
      | none => simp [throw, throwThe, MonadExceptOf.throw]
      | some table => simp [pure, Except.pure]

/-- A batch passes if the tables of all its seats are there. -/
theorem checkBatch_eq_ok_iff : s.checkBatch t batch = .ok () ↔ ∀ r ∈ batch, s.Knows t r := by
  unfold checkBatch
  induction batch with
  | nil => simp [List.forM, pure, Except.pure]
  | cons r batch ih =>
      rw [List.forall_mem_cons, ← ih, ← table_eq_ok_iff, List.forM]
      cases s.table t r.tableId with
      | error e => simp [Except.map, bind, Except.bind]
      | ok table => simp [Except.map, bind, Except.bind]

theorem checkBatch_eq_ok (present : s.tables? t = some tables)
    (known : ∀ r ∈ batch, r.tableId ∈ tables.map SeatedTable.id) :
    s.checkBatch t batch = .ok () :=
  checkBatch_eq_ok_iff.mpr fun r member => ⟨tables, present, known r member⟩

/-! ## No batch stops half-way -/

/-- What a store becomes when the tables of one tournament change and nothing else does. -/
structure Becomes (s : SeatStore) (t : TournamentId) (tables : List SeatedTable)
    (after : SeatStore) : Prop where
  here : after.tables? t = some tables
  elsewhere : ∀ u, u ≠ t → after.tables? u = s.tables? u
  batches : after.batches = s.batches

theorem becomes_withTables (s : SeatStore) (t : TournamentId) (tables : List SeatedTable) :
    s.Becomes t tables (s.withTables t tables) where
  here := tables?_withTables s t tables
  elsewhere _ other := tables?_withTables_of_ne s other tables
  batches := rfl

theorem Becomes.trans {later : List SeatedTable} {next after : SeatStore}
    (first : s.Becomes t tables next) (second : next.Becomes t later after) :
    s.Becomes t later after where
  here := second.here
  elsewhere u other := (second.elsewhere u other).trans (first.elsewhere u other)
  batches := second.batches.trans first.batches

theorem seat_of_known {r : Seat} (present : s.tables? t = some tables)
    (known : r.tableId ∈ tables.map SeatedTable.id) :
    s.seat t r = .ok (s.withTables t
      (SeatedTable.modifyTable tables r.tableId (·.push r))) := by
  obtain ⟨table, found⟩ := table_eq_ok_iff.mpr ⟨tables, present, known⟩
  simp only [SeatStore.seat, found, SeatStore.tables, present, bind, Except.bind, pure,
    Except.pure]

/-- A seat whose table is there is put down. -/
theorem exists_seat_discard {r : Seat} (present : s.tables? t = some tables)
    (known : r.tableId ∈ tables.map SeatedTable.id) :
    ∃ next, (s.discard t r.id).seat t r = .ok next ∧
      s.Becomes t (SeatedTable.put tables r) next := by
  have cleared : s.Becomes t (tables.map (·.without r.id)) (s.discard t r.id) := by
    simp only [discard, present]
    exact becomes_withTables s t _
  refine ⟨_, seat_of_known cleared.here ?_, cleared.trans (becomes_withTables _ t _)⟩
  rwa [SeatedTable.map_id_without]

/-- When all tables are there from the start, they are still there when their seats come. -/
theorem putDown_of_known (present : s.tables? t = some tables)
    (known : ∀ r ∈ batch, r.tableId ∈ tables.map SeatedTable.id) :
    ∃ after, s.putDown t batch = (.ok (), after) ∧
      s.Becomes t (batch.foldl SeatedTable.put tables) after := by
  induction batch generalizing s tables with
  | nil => exact ⟨s, rfl, present, fun _ _ => rfl, rfl⟩
  | cons r batch ih =>
      obtain ⟨here, later⟩ := List.forall_mem_cons.mp known
      obtain ⟨next, seated, step⟩ := exists_seat_discard present here
      have still_known : ∀ q ∈ batch,
          q.tableId ∈ (SeatedTable.put tables r).map SeatedTable.id := by
        rwa [SeatedTable.map_id_put]
      obtain ⟨after, put_down, rest⟩ := ih step.here still_known
      refine ⟨after, ?_, step.trans rest⟩
      simp only [putDown, seated, put_down]

theorem keep_of_known (present : s.tables? t = some tables)
    (known : ∀ r ∈ batch, r.tableId ∈ tables.map SeatedTable.id) :
    ∃ after, s.keep t batch = (.ok (), after) ∧
      s.counted.Becomes t (batch.foldl SeatedTable.put tables) after := by
  simp only [keep, checkBatch_eq_ok present known]
  exact putDown_of_known present known

/-- A batch is refused before anything changes, or it comes to its end. -/
theorem keep_cases (s : SeatStore) (t : TournamentId) (batch : List Seat) :
    (∃ e, s.checkBatch t batch = .error e ∧ s.keep t batch = (.error e, s.counted)) ∨
      (s.tables? t = none ∧ batch = [] ∧ s.keep t batch = (.ok (), s.counted)) ∨
      ∃ tables after, s.tables? t = some tables ∧
        (∀ r ∈ batch, r.tableId ∈ tables.map SeatedTable.id) ∧
        s.keep t batch = (.ok (), after) ∧
        s.counted.Becomes t (batch.foldl SeatedTable.put tables) after := by
  cases passed : s.checkBatch t batch with
  | error e => exact .inl ⟨e, rfl, by simp only [keep, passed]⟩
  | ok done =>
      have known := checkBatch_eq_ok_iff.mp passed
      cases present : s.tables? t with
      | none =>
          have empty : batch = [] := by
            refine List.eq_nil_iff_forall_not_mem.mpr fun r member => ?_
            obtain ⟨tables, found, -⟩ := known r member
            rw [present] at found
            cases found
          subst empty
          exact .inr (.inl ⟨rfl, rfl, rfl⟩)
      | some tables =>
          have listed : ∀ r ∈ batch, r.tableId ∈ tables.map SeatedTable.id :=
            fun r member => (known r member).listed present
          obtain ⟨after, kept, becomes⟩ := keep_of_known present listed
          exact .inr (.inr ⟨tables, after, rfl, listed, kept, becomes⟩)

end SeatStore

end CardRoom
