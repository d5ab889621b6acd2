import Mathlib
import CardRoom.Proofs.Tallies
import CardRoom.Proofs.Seating.Moved

/-! # A rebalancing follows its plan

The plan is made on the players alone, and what is kept is found again by comparing where they
sit with where they should. On any well-formed record of a tournament the two agree: the tables
on record end up as the plan has them, in order, and only the movers' seats have changed.
-/

namespace CardRoom

open Arrangement

namespace Arrangement

theorem plan_of_balanced {rules : BalanceRules} {a : Arrangement}
    (balanced : Tables.Balanced rules.allowedDiff a.tables) (limit : Nat) :
    a.plan rules limit = ⟨[], a, false⟩ := by
  cases limit with
  | zero => rfl
  | succ limit => simp only [plan, next, if_pos balanced]

end Arrangement

theorem BalancerSettings.one_le_allowedDiff {settings : BalancerSettings}
    (accepted : settings.check = .ok ()) : 1 ≤ settings.allowedDiff := by
  unfold check at accepted
  split at accepted
  · cases accepted
  · omega

/-- What a rebalancing says and what it leaves on record when it follows a plan. -/
structure Fulfils (before : List SeatedTable) (plan : BalancePlan) (hand : HandNumber)
    (report : RebalanceReport) (after : List SeatedTable) : Prop where
  seating : (inOrder after).map SeatedTable.players = plan.final.tables
  tables : after.map SeatedTable.id = before.map SeatedTable.id
  moves : (report.moves.map some).Perm
    (plan.moves.map (Transfer.ofMove? ((inOrder before).map SeatedTable.id)))
  seats : (after.flatMap SeatedTable.seats).Perm
    ((before.flatMap SeatedTable.seats).map (Seat.afterMoves report.moves hand))
  well : WellSeated after
  remaining : report.remaining = (before.flatMap SeatedTable.seats).length
  blocked : report.blocked = plan.blocked

section

variable {tables : List SeatedTable} {plan : BalancePlan} {hand : HandNumber}

def reportOf (tables : List SeatedTable) (plan : BalancePlan) (hand : HandNumber) :
    RebalanceReport :=
  ⟨transfers (inOrder tables) plan.moves hand, plan.blocked,
    tally (Tables.sizes ((inOrder tables).map SeatedTable.players))⟩

def tablesAfter (tables : List SeatedTable) (plan : BalancePlan) (hand : HandNumber) :
    List SeatedTable :=
  tables.map (SeatedTable.afterBatch (movedSeats (inOrder tables) plan.moves hand))

theorem remaining_eq (tables : List SeatedTable) :
    tally (Tables.sizes (tables.map SeatedTable.players)) =
      (tables.flatMap SeatedTable.seats).length := by
  rw [tally_eq_sum, Tables.sizes, List.map_map, List.length_flatMap]
  refine congrArg List.sum (List.map_congr_left fun t _ => ?_)
  exact List.length_map Seat.playerId

theorem tablesAfter_of_nil (none_moved : plan.moves = []) :
    tablesAfter tables plan hand = tables := by
  have empty : movedSeats (inOrder tables) plan.moves hand = [] := by
    rw [movedSeats, none_moved, grouped_nil, List.map_nil]
  rw [tablesAfter, empty, List.map_congr_left fun t _ => SeatedTable.afterBatch_nil t, List.map_id']

theorem fulfils_of_carries (well : WellSeated tables)
    (carries : Carries ((inOrder tables).map SeatedTable.players) plan.moves plan.final.tables)
    (hand : HandNumber) :
    Fulfils tables plan hand (reportOf tables plan hand) (tablesAfter tables plan hand) := by
  have ordered := well.perm (inOrder_perm tables)
  have same : inOrder (tablesAfter tables plan hand) = (inOrder tables).map
      (SeatedTable.afterBatch (movedSeats (inOrder tables) plan.moves hand)) :=
    inOrder_map _ fun _ => rfl
  have reordered := same ▸ inOrder_perm (tablesAfter tables plan hand)
  refine ⟨?_, ?_, transfers_perm carries, ?_, ?_, ?_, rfl⟩
  · rw [same]
    exact seating_afterBatch carries ordered
  · exact SeatedTable.map_id_afterBatch _ tables
  · refine (reordered.symm.flatMap_right _).trans ?_
    refine (seats_afterBatch_perm carries ordered).trans ?_
    exact ((inOrder_perm tables).flatMap_right _).map _
  · exact (wellSeated_afterBatch carries ordered).perm reordered.symm
  · rw [reportOf, remaining_eq]
    exact ((inOrder_perm tables).flatMap_right _).length_eq

end

namespace Balancer

variable {b : Balancer SeatStore} {t : TournamentId} {tables : List SeatedTable}

theorem plan_carries (b : Balancer SeatStore) (well : WellSeated tables) (hand : HandNumber)
    (restHands : Nat) :
    Carries (tables.map SeatedTable.players) (b.plan tables hand restHands).moves
      (b.plan tables hand restHands).final.tables :=
  @Arrangement.plan_carries ⟨hand, restHands, b.settings.allowedDiff⟩ ⟨_, _⟩
    (BalancerSettings.one_le_allowedDiff b.accepted) _ well.players_nodup

theorem changes_plan (b : Balancer SeatStore) (well : WellSeated tables) (hand : HandNumber)
    (restHands : Nat) :
    changes tables hand (b.plan tables hand restHands).final.tables =
      (grouped tables.length (b.plan tables hand restHands).moves).map
        (relocationOf tables hand) := by
  refine changes_eq well ?_ (b.plan_carries well hand restHands) hand
  unfold plan
  apply plan_apart
  exact BalancerSettings.one_le_allowedDiff b.accepted

theorem moves_of_plan (b : Balancer SeatStore) (well : WellSeated tables) (hand : HandNumber)
    (restHands : Nat) :
    (changes tables hand (b.plan tables hand restHands).final.tables).map Relocation.move =
      transfers tables (b.plan tables hand restHands).moves hand := by
  rw [b.changes_plan well, List.map_map]
  rfl

theorem seats_of_plan (b : Balancer SeatStore) (well : WellSeated tables) (hand : HandNumber)
    (restHands : Nat) :
    (changes tables hand (b.plan tables hand restHands).final.tables).map Relocation.seat =
      movedSeats tables (b.plan tables hand restHands).moves hand := by
  rw [b.changes_plan well, List.map_map]
  rfl

theorem found_of_present (present : b.keeper.tables? t = some tables) :
    SeatKeeper.tables b.keeper t = .ok tables := by
  simp only [SeatKeeper.tables, SeatStore.tables, present]

theorem rebalance_of_absent (absent : b.keeper.tables? t = none) (hand : HandNumber)
    (restHands : Nat) :
    b.rebalance t hand restHands = ⟨.error (.storage (.unknownTournament t)), b, []⟩ := by
  have missing : SeatKeeper.tables b.keeper t = .error (.unknownTournament t) := by
    simp only [SeatKeeper.tables, SeatStore.tables, absent]
  simp only [rebalance, missing]

theorem rebalance_of_idle (present : b.keeper.tables? t = some tables)
    (well : WellSeated tables) {hand : HandNumber} {restHands : Nat}
    (idle : (b.plan (inOrder tables) hand restHands).moves = []) :
    (b.rebalance t hand restHands).result =
        .ok (reportOf tables (b.plan (inOrder tables) hand restHands) hand) ∧
      (b.rebalance t hand restHands).balancer = b := by
  have found := found_of_present present
  have unchanged := b.changes_plan (well.perm (inOrder_perm tables)) hand restHands
  rw [idle, grouped_nil, List.map_nil] at unchanged
  rw [reportOf, idle, transfers, grouped_nil, List.map_nil]
  by_cases balanced : Tables.Balanced b.settings.allowedDiff
      ((inOrder tables).map SeatedTable.players)
  · have resting : (b.plan (inOrder tables) hand restHands).blocked = false :=
      congrArg BalancePlan.blocked (plan_of_balanced balanced _)
    simp only [rebalance, found, if_pos balanced, resting, and_self]
  · simp only [rebalance, found, if_neg balanced, unchanged]
    exact ⟨rfl, rfl⟩

theorem rebalance_of_moves (present : b.keeper.tables? t = some tables)
    (well : WellSeated tables) {hand : HandNumber} {restHands : Nat}
    (busy : (b.plan (inOrder tables) hand restHands).moves ≠ []) :
    (b.rebalance t hand restHands).result =
        .ok (reportOf tables (b.plan (inOrder tables) hand restHands) hand) ∧
      ∃ keeper, (b.rebalance t hand restHands).balancer = b.withKeeper keeper ∧
        b.keeper.counted.Becomes t
          (tablesAfter tables (b.plan (inOrder tables) hand restHands) hand) keeper := by
  have found := found_of_present present
  have ordered := well.perm (inOrder_perm tables)
  have carries := b.plan_carries ordered hand restHands
  have seats := b.seats_of_plan ordered hand restHands
  have unbalanced : ¬ Tables.Balanced b.settings.allowedDiff
      ((inOrder tables).map SeatedTable.players) :=
    fun balanced => busy (congrArg BalancePlan.moves (plan_of_balanced balanced _))
  have some_changed : (changes (inOrder tables) hand
      (b.plan (inOrder tables) hand restHands).final.tables).isEmpty = false := by
    rw [b.changes_plan ordered, List.isEmpty_eq_false_iff, Ne, List.map_eq_nil_iff]
    exact fun none_moved => busy (none_moved ▸ grouped_perm_of_carries carries).nil_eq.symm
  have known : ∀ r ∈ movedSeats (inOrder tables) (b.plan (inOrder tables) hand restHands).moves
      hand, r.tableId ∈ tables.map SeatedTable.id := by
    intro r listed
    obtain ⟨m, member, rfl⟩ := (mem_movedSeats carries).mp listed
    have target := getElem?_ids (inside_of_carries carries member).2
    exact ((inOrder_perm tables).map _).mem_iff.mp (List.mem_of_getElem? target)
  obtain ⟨keeper, kept, becomes⟩ := SeatStore.keep_of_known present known
  rw [SeatedTable.foldl_put well.tableIds] at becomes
  rw [reportOf, ← b.moves_of_plan ordered]
  simp only [rebalance, found, if_neg unbalanced, some_changed, seats, SeatKeeper.keep, kept,
    Bool.false_eq_true, if_false, true_and]
  exact ⟨keeper, rfl, becomes⟩

theorem result_rebalance (present : b.keeper.tables? t = some tables) (well : WellSeated tables)
    (hand : HandNumber) (restHands : Nat) :
    (b.rebalance t hand restHands).result =
      .ok (reportOf tables (b.plan (inOrder tables) hand restHands) hand) := by
  by_cases idle : (b.plan (inOrder tables) hand restHands).moves = []
  · exact (rebalance_of_idle present well idle).1
  · exact (rebalance_of_moves present well idle).1

theorem tables?_rebalance (present : b.keeper.tables? t = some tables) (well : WellSeated tables)
    (hand : HandNumber) (restHands : Nat) :
    (b.rebalance t hand restHands).balancer.keeper.tables? t =
      some (tablesAfter tables (b.plan (inOrder tables) hand restHands) hand) := by
  by_cases idle : (b.plan (inOrder tables) hand restHands).moves = []
  · rw [(rebalance_of_idle present well idle).2, tablesAfter_of_nil idle]
    exact present
  · obtain ⟨-, keeper, same, becomes⟩ := rebalance_of_moves present well idle
    rw [same]
    exact becomes.here

theorem tables?_rebalance_of_ne (present : b.keeper.tables? t = some tables)
    (well : WellSeated tables) (hand : HandNumber) (restHands : Nat) {u : TournamentId}
    (other : u ≠ t) :
    (b.rebalance t hand restHands).balancer.keeper.tables? u = b.keeper.tables? u := by
  by_cases idle : (b.plan (inOrder tables) hand restHands).moves = []
  · rw [(rebalance_of_idle present well idle).2]
  · obtain ⟨-, keeper, same, becomes⟩ := rebalance_of_moves present well idle
    rw [same]
    exact becomes.elsewhere u other

theorem settings_rebalance (present : b.keeper.tables? t = some tables) (well : WellSeated tables)
    (hand : HandNumber) (restHands : Nat) :
    (b.rebalance t hand restHands).balancer.settings = b.settings := by
  by_cases idle : (b.plan (inOrder tables) hand restHands).moves = []
  · rw [(rebalance_of_idle present well idle).2]
  · obtain ⟨-, keeper, same, -⟩ := rebalance_of_moves present well idle
    rw [same]
    rfl

theorem fulfils_rebalance (b : Balancer SeatStore) (well : WellSeated tables) (hand : HandNumber)
    (restHands : Nat) :
    Fulfils tables (b.plan (inOrder tables) hand restHands) hand
      (reportOf tables (b.plan (inOrder tables) hand restHands) hand)
      (tablesAfter tables (b.plan (inOrder tables) hand restHands) hand) :=
  fulfils_of_carries well (b.plan_carries (well.perm (inOrder_perm tables)) hand restHands) hand

/-- No table loses its last player. -/
theorem occupied_rebalance (b : Balancer SeatStore) (well : WellSeated tables)
    (occupied : ∀ u ∈ tables, u.seats ≠ []) (hand : HandNumber) (restHands : Nat) :
    ∀ u ∈ tablesAfter tables (b.plan (inOrder tables) hand restHands) hand, u.seats ≠ [] := by
  intro u listed empty
  have fulfilled := fulfils_rebalance b well hand restHands
  have seated : u.players ∈ (b.plan (inOrder tables) hand restHands).final.tables := by
    rw [← fulfilled.seating]
    exact List.mem_map_of_mem ((inOrder_perm _).mem_iff.mpr listed)
  have least : 1 ≤ Tables.smallest ((inOrder tables).map SeatedTable.players) := by
    apply Tables.le_smallest
    · intro nothing
      rw [List.map_eq_nil_iff] at nothing
      have none_open := nothing ▸ inOrder_perm tables
      rw [tablesAfter, none_open.nil_eq.symm] at listed
      cases listed
    · intro players member
      obtain ⟨v, opened, rfl⟩ := List.mem_map.mp member
      have filled := occupied v ((inOrder_perm tables).mem_iff.mp opened)
      rw [SeatedTable.players, List.length_map]
      exact List.length_pos_iff.mpr filled
  have kept : Tables.smallest ((inOrder tables).map SeatedTable.players) ≤
      Tables.smallest (b.plan (inOrder tables) hand restHands).final.tables :=
    @smallest_le_plan ⟨hand, restHands, b.settings.allowedDiff⟩
      (BalancerSettings.one_le_allowedDiff b.accepted) _ ⟨_, _⟩
  have reached := Tables.smallest_le seated
  rw [SeatedTable.players, empty] at reached
  exact absurd (least.trans (kept.trans reached)) (by simp)

/-- A rebalancing succeeds, and what it reports and leaves on record is what its plan says. The
plan goes by the hands that the seats remember, other tournaments stay as they are, and seats are
handed in once, or not at all when there are no moves. -/
theorem rebalance_fulfils_plan (present : b.keeper.tables? t = some tables)
    (well : WellSeated tables) (hand : HandNumber) (restHands : Nat) :
    ∃ report after,
      (b.rebalance t hand restHands).result = .ok report ∧
      (b.rebalance t hand restHands).balancer.keeper.tables? t = some after ∧
      Fulfils tables (b.plan (inOrder tables) hand restHands) hand report after ∧
      (∀ s ∈ tables.flatMap SeatedTable.seats,
        (historyOfSeats (seatsByPlayer (inOrder tables)))[s.playerId]? = s.lastMoved) ∧
      (b.rebalance t hand restHands).balancer.keeper.batches =
        b.keeper.batches + (if report.moves = [] then 0 else 1) ∧
      ∀ u, u ≠ t →
        (b.rebalance t hand restHands).balancer.keeper.tables? u = b.keeper.tables? u := by
  have fulfilled := b.fulfils_rebalance well hand restHands
  have remembered : ∀ s ∈ tables.flatMap SeatedTable.seats,
      (historyOfSeats (seatsByPlayer (inOrder tables)))[s.playerId]? = s.lastMoved :=
    fun s on_record =>
      (well.perm (inOrder_perm tables)).getElem?_history (mem_seats_inOrder.mpr on_record)
  refine ⟨reportOf tables (b.plan (inOrder tables) hand restHands) hand,
    tablesAfter tables (b.plan (inOrder tables) hand restHands) hand,
    result_rebalance present well hand restHands, tables?_rebalance present well hand restHands,
    fulfilled, remembered, ?_, fun u other =>
      tables?_rebalance_of_ne present well hand restHands other⟩
  by_cases idle : (b.plan (inOrder tables) hand restHands).moves = []
  · have quiet : (reportOf tables (b.plan (inOrder tables) hand restHands) hand).moves = [] := by
      rw [reportOf, idle, transfers, grouped_nil, List.map_nil]
    rw [(rebalance_of_idle present well idle).2, if_pos quiet]
    rfl
  · have moved : (reportOf tables (b.plan (inOrder tables) hand restHands) hand).moves ≠ [] := by
      intro none_moved
      have same_number := fulfilled.moves.length_eq
      rw [none_moved, List.map_nil, List.length_nil, List.length_map] at same_number
      exact idle (List.length_eq_zero_iff.mp same_number.symm)
    obtain ⟨-, keeper, same, becomes⟩ := rebalance_of_moves present well idle
    rw [same, if_neg moved]
    exact becomes.batches

/-- A full table, opened first though its id is higher, and an empty one. -/
def lopsided : List SeatedTable :=
  [⟨2, [.fresh 11 1 2 (some 0) (.ofNat 90), .fresh 12 2 2 (some 1) (.ofNat 50),
    (Seat.fresh 13 3 2 (some 2) (.ofNat 70)).movedTo 2 8]⟩, .empty 1]

def lopsidedRoom : Balancer SeatStore := ⟨({} : SeatStore).withTables 7 lopsided, {}, rfl⟩

theorem rebalance_fulfils_plan_lopsided :
    lopsidedRoom.keeper.tables? 7 = some lopsided ∧ WellSeated lopsided ∧
      ∃ report after,
        (lopsidedRoom.rebalance 7 9 5).result = .ok report ∧
        (lopsidedRoom.rebalance 7 9 5).balancer.keeper.tables? 7 = some after ∧
        Fulfils lopsided (lopsidedRoom.plan (inOrder lopsided) 9 5) 9 report after ∧
        report.remaining = 3 := by
  have present : lopsidedRoom.keeper.tables? 7 = some lopsided := SeatStore.tables?_withTables ..
  have well : WellSeated lopsided := ⟨by decide, by decide, by decide, by decide⟩
  obtain ⟨report, after, succeeds, kept, fulfilled, -⟩ :=
    rebalance_fulfils_plan present well 9 5
  exact ⟨present, well, report, after, succeeds, kept, fulfilled, fulfilled.remaining⟩

end Balancer

end CardRoom
