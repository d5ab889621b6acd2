import Mathlib
import CardRoom.Seating.Relocation

/-! # What the seats on record say

With distinct players, the seats by player and the history of moves say neither more nor less
than the seats themselves, and each player who has to change tables is found in his own seat.
-/

namespace CardRoom

/-- Tables that a tournament may have: nothing is there twice, and each seat names the table
where it stands. -/
structure WellSeated (tables : List SeatedTable) : Prop where
  tableIds : (tables.map SeatedTable.id).Nodup
  seatIds : ((tables.flatMap SeatedTable.seats).map Seat.id).Nodup
  playerIds : ((tables.flatMap SeatedTable.seats).map Seat.playerId).Nodup
  placed : ∀ t ∈ tables, ∀ s ∈ t.seats, s.tableId = t.id

section

variable {tables : List SeatedTable}

theorem inOrder_perm (tables : List SeatedTable) : (inOrder tables).Perm tables :=
  List.mergeSort_perm _ _

theorem mem_seats_inOrder {s : Seat} :
    s ∈ (inOrder tables).flatMap SeatedTable.seats ↔ s ∈ tables.flatMap SeatedTable.seats :=
  ((inOrder_perm tables).flatMap_right _).mem_iff

theorem inOrder_map (f : SeatedTable → SeatedTable) (same : ∀ t, (f t).id = t.id) :
    inOrder (tables.map f) = (inOrder tables).map f := by
  refine (List.map_mergeSort fun t _ u _ => ?_).symm
  rw [same, same]

theorem WellSeated.perm {others : List SeatedTable} (well : WellSeated tables)
    (same : others.Perm tables) : WellSeated others where
  tableIds := (same.map _).nodup_iff.mpr well.tableIds
  seatIds := ((same.flatMap_right _).map _).nodup_iff.mpr well.seatIds
  playerIds := ((same.flatMap_right _).map _).nodup_iff.mpr well.playerIds
  placed t member := well.placed t (same.mem_iff.mp member)

theorem flatten_players (tables : List SeatedTable) :
    (tables.map SeatedTable.players).flatten =
      (tables.flatMap SeatedTable.seats).map Seat.playerId := by
  rw [List.map_flatMap, List.flatMap_def]
  rfl

theorem WellSeated.players_nodup (well : WellSeated tables) :
    (tables.map SeatedTable.players).flatten.Nodup :=
  flatten_players tables ▸ well.playerIds

end

/-! ## Seats and history by player -/

section

variable {α β : Type} {key : α → PlayerId} {xs : List α}

theorem find?_eq_none_of_absent {p : PlayerId} (absent : p ∉ xs.map key) :
    xs.find? (key · = p) = none := by
  refine List.find?_eq_none.mpr fun x member same => absent ?_
  exact of_decide_eq_true same ▸ List.mem_map_of_mem member

theorem find?_of_mem (distinct : (xs.map key).Nodup) {x : α} (member : x ∈ xs) :
    xs.find? (key · = key x) = some x := by
  induction xs with
  | nil => cases member
  | cons y xs ih =>
      obtain ⟨absent, later⟩ := List.nodup_cons.mp distinct
      rcases List.mem_cons.mp member with rfl | member
      · simp
      · have other : key y ≠ key x := by
          intro same
          exact absent (same ▸ List.mem_map_of_mem member)
        rw [List.find?_cons_of_neg (by simpa using other)]
        exact ih later member

/-- What is found after entries with distinct keys were put into a map, those that have a
value. -/
theorem getElem?_foldl_enter (value : α → Option β) (distinct : (xs.map key).Nodup)
    {f : Std.TreeMap PlayerId β → α → Std.TreeMap PlayerId β}
    (enters : ∀ map x, f map x = (value x).elim map (map.insert (key x)))
    (map : Std.TreeMap PlayerId β) (p : PlayerId) :
    (xs.foldl f map)[p]? = ((xs.find? (key · = p)).bind value).or map[p]? := by
  induction xs generalizing map with
  | nil => rfl
  | cons x xs ih =>
      obtain ⟨absent, later⟩ := List.nodup_cons.mp distinct
      rw [List.foldl_cons, ih later, enters]
      by_cases own : key x = p
      · subst own
        rw [find?_eq_none_of_absent absent, List.find?_cons_of_pos (by simp)]
        cases given : value x <;> simp [given]
      · rw [List.find?_cons_of_neg (by simpa using own)]
        cases value x <;> simp [Std.TreeMap.getElem?_insert, own]

end

theorem getElem?_seatsByPlayer {tables : List SeatedTable}
    (distinct : ((tables.flatMap SeatedTable.seats).map Seat.playerId).Nodup) (p : PlayerId) :
    (seatsByPlayer tables)[p]? = (tables.flatMap SeatedTable.seats).find? (·.playerId = p) := by
  have entered := getElem?_foldl_enter some distinct
    (f := fun map s => map.insert s.playerId s) (fun _ _ => rfl) ∅ p
  simpa [seatsByPlayer] using entered

theorem nodup_keys (seats : Std.TreeMap PlayerId Seat) : (seats.toList.map Prod.fst).Nodup := by
  refine List.pairwise_map.mpr (Std.TreeMap.distinct_keys_toList.imp ?_)
  intro a b apart same
  exact apart (same ▸ Std.ReflCmp.compare_self)

theorem find?_toList (seats : Std.TreeMap PlayerId Seat) (p : PlayerId) :
    seats.toList.find? (·.1 = p) = seats[p]?.map (p, ·) := by
  cases found : seats[p]? with
  | none =>
      refine List.find?_eq_none.mpr fun (q, s) member same => ?_
      rw [← of_decide_eq_true same, Std.TreeMap.mem_toList_iff_getElem?_eq_some.mp member] at found
      cases found
  | some s =>
      exact find?_of_mem (nodup_keys seats) (Std.TreeMap.mem_toList_iff_getElem?_eq_some.mpr found)

theorem getElem?_historyOfSeats (seats : Std.TreeMap PlayerId Seat) (p : PlayerId) :
    (historyOfSeats seats)[p]? = seats[p]?.bind Seat.lastMoved := by
  rw [historyOfSeats, Std.TreeMap.foldl_eq_foldl_toList,
    getElem?_foldl_enter (fun entry => entry.2.lastMoved) (nodup_keys seats), find?_toList]
  · cases seats[p]? <;> simp
  · intro history entry
    cases entry.2.lastMoved <;> rfl

/-! ## Seats that have to change -/

/-- The seat that a player has to leave for a table, and where it goes, unless it is there. -/
def relocate? (hand : HandNumber) (s : Seat) (table : TableId) : Option Relocation :=
  if s.tableId = table then none else some ⟨s.tableId, s.movedTo table hand⟩

theorem relocations_eq (hand : HandNumber) (seats : Std.TreeMap PlayerId Seat)
    {targets : List (TableId × PlayerId)} (distinct : (targets.map Prod.snd).Nodup) :
    relocations hand seats targets = targets.filterMap fun (table, player) =>
      seats[player]?.bind fun s => relocate? hand s table := by
  induction targets generalizing seats with
  | nil => rfl
  | cons target targets ih =>
      obtain ⟨table, player⟩ := target
      obtain ⟨absent, later⟩ := List.nodup_cons.mp distinct
      cases found : seats[player]? with
      | none => simp [relocations, found, ih seats later]
      | some s =>
          by_cases there : s.tableId = table
          · simp [relocations, relocate?, found, there, ih seats later]
          · -- Writing the moved seat back changes nothing for the players who are still to come.
            have others : ∀ target ∈ targets,
                (seats.insert player (s.movedTo table hand))[target.2]? = seats[target.2]? := by
              intro target member
              rw [Std.TreeMap.getElem?_insert, if_neg]
              intro same
              exact absent (List.mem_map.mpr ⟨target, member, (Std.LawfulEqCmp.eq_of_compare same).symm⟩)
            have rest := List.filterMap_congr fun target member => congrArg
              (Option.bind · fun s => relocate? hand s target.1) (others target member)
            simp only [relocations, found, there, if_false, ih _ later]
            rw [List.filterMap_cons_some (b := ⟨s.tableId, s.movedTo table hand⟩)
              (by simp [found, relocate?, there])]
            exact congrArg _ rest

end CardRoom
