import Mathlib
import CardRoom.Proofs.Seating.Rebalance
import CardRoom.Proofs.Seating.Standstill

/-! # Rebalanced tables stay as they are

With a move allowed for every player, a rebalancing that is not blocked leaves balanced tables. One
that is blocked leaves a fullest table with players who have not been moved by it and who were moved
too lately before it. Either way, doing the same again changes nothing and keeps nothing.
-/

namespace CardRoom

/-- No table has more than `diff` players more than another. -/
def LevelWithin (diff : Nat) (tables : List SeatedTable) : Prop :=
  ∀ full ∈ tables, ∀ low ∈ tables, full.count ≤ low.count + diff

/-- The table with the most players, and of several the one with the lowest id. -/
structure IsFullest (tables : List SeatedTable) (full : SeatedTable) : Prop where
  mem : full ∈ tables
  first : ∀ other ∈ tables,
    other.count < full.count ∨ other.count = full.count ∧ full.id ≤ other.id

/-- A table as full as the fullest does not stand before the first of them. -/
theorem Tables.fullest_le {tables : Tables} {i : Nat}
    (full : (sizes tables)[i]? = some (largest tables)) : fullest tables ≤ i := by
  by_contra before
  obtain ⟨inside, same⟩ := List.getElem?_eq_some_iff.mp full
  have differs := List.not_of_lt_findIdx (Nat.not_le.mp before)
  simp [same] at differs

section

variable {tables others : List SeatedTable} {diff : Nat}

@[simp] theorem length_players (t : SeatedTable) : t.players.length = t.count :=
  List.length_map Seat.playerId

theorem levelWithin_perm (same : others.Perm tables) :
    LevelWithin diff others ↔ LevelWithin diff tables := by
  simp only [LevelWithin, same.mem_iff]

theorem isFullest_perm (same : others.Perm tables) {full : SeatedTable}
    (fullest : IsFullest others full) : IsFullest tables full where
  mem := same.mem_iff.mp fullest.mem
  first other member := fullest.first other (same.mem_iff.mpr member)

theorem exists_of_mem_sizes {n : Nat}
    (listed : n ∈ Tables.sizes (tables.map SeatedTable.players)) : ∃ t ∈ tables, t.count = n := by
  obtain ⟨players, seated, rfl⟩ := List.mem_map.mp listed
  obtain ⟨t, member, rfl⟩ := List.mem_map.mp seated
  exact ⟨t, member, (length_players t).symm⟩

theorem count_le_largest {t : SeatedTable} (member : t ∈ tables) :
    t.count ≤ Tables.largest (tables.map SeatedTable.players) := by
  rw [← length_players]
  exact Tables.le_largest (List.mem_map_of_mem member)

theorem smallest_le_count {t : SeatedTable} (member : t ∈ tables) :
    Tables.smallest (tables.map SeatedTable.players) ≤ t.count := by
  rw [← length_players]
  exact Tables.smallest_le (List.mem_map_of_mem member)

theorem balanced_iff_levelWithin :
    Tables.Balanced diff (tables.map SeatedTable.players) ↔ LevelWithin diff tables := by
  unfold Tables.Balanced
  constructor
  · intro balanced full first low second
    have high := count_le_largest first
    have deep := smallest_le_count second
    omega
  · intro level
    by_cases empty : tables = []
    · subst empty
      exact Nat.zero_le _
    · have some_there : tables.map SeatedTable.players ≠ [] := by simpa using empty
      obtain ⟨full, first, high⟩ := exists_of_mem_sizes (Tables.largest_mem some_there)
      obtain ⟨low, second, deep⟩ := exists_of_mem_sizes (Tables.smallest_mem some_there)
      have close := level full first low second
      omega

theorem inOrder_pairwise (tables : List SeatedTable) :
    (inOrder tables).Pairwise fun t u => t.id ≤ u.id := by
  refine (List.pairwise_mergeSort ?_ ?_ _).imp fun le => of_decide_eq_true le
  · intro t u v first second
    exact decide_eq_true ((of_decide_eq_true first).trans (of_decide_eq_true second))
  · intro t u
    rw [Bool.or_eq_true, decide_eq_true_eq, decide_eq_true_eq]
    exact Nat.le_total t.id u.id

/-- In tables in order, the first of the fullest has the lowest id of them. -/
theorem exists_isFullest (ordered : tables.Pairwise fun t u => t.id ≤ u.id)
    (some_there : tables ≠ []) : ∃ full, IsFullest tables full ∧
      full.players = Tables.atFullest (tables.map SeatedTable.players) := by
  have listed := Tables.largest_mem
    (show tables.map SeatedTable.players ≠ [] by simpa using some_there)
  obtain ⟨players, here, size⟩ := Tables.getElem?_of_idxOf_sizes listed
  rw [← Tables.fullest] at here
  have at_fullest : Tables.atFullest (tables.map SeatedTable.players) = players := by
    rw [Tables.atFullest, List.getD_eq_getElem?_getD, here, Option.getD_some]
  rw [List.getElem?_map] at here
  obtain ⟨full, place, rfl⟩ := Option.map_eq_some_iff.mp here
  refine ⟨full, ⟨List.mem_of_getElem? place, fun other member => ?_⟩, at_fullest.symm⟩
  rw [length_players] at size
  rcases (count_le_largest member).lt_or_eq with fewer | tie
  · exact .inl (size ▸ fewer)
  · obtain ⟨j, there⟩ := List.mem_iff_getElem?.mp member
    have sizes_there : (Tables.sizes (tables.map SeatedTable.players))[j]? =
        some (Tables.largest (tables.map SeatedTable.players)) := by
      rw [Tables.sizes, List.map_map, List.getElem?_map, there, Option.map_some, ← tie]
      simp
    refine .inr ⟨tie.trans size.symm, ?_⟩
    rcases (Tables.fullest_le sizes_there).lt_or_eq with later | same
    · obtain ⟨inside, rfl⟩ := List.getElem?_eq_some_iff.mp place
      obtain ⟨also_inside, rfl⟩ := List.getElem?_eq_some_iff.mp there
      exact List.pairwise_iff_getElem.mp ordered _ _ inside also_inside later
    · rw [same, there] at place
      cases place
      exact le_rfl

end

namespace Balancer

open Arrangement

variable {b : Balancer SeatStore} {t : TournamentId} {tables : List SeatedTable}
  {hand : HandNumber} {restHands : Nat}

theorem moveLimit_ne_zero (b : Balancer SeatStore) : b.settings.moveLimit ≠ 0 := by
  have accepted := b.accepted
  unfold BalancerSettings.check at accepted
  grind

def rules (b : Balancer SeatStore) (hand : HandNumber) (restHands : Nat) : BalanceRules :=
  ⟨hand, restHands, b.settings.allowedDiff⟩

/-- The players at their tables, with the moves that their seats remember. -/
def arrangement (tables : List SeatedTable) : Arrangement :=
  ⟨tables.map SeatedTable.players, historyOfSeats (seatsByPlayer tables)⟩

theorem plan_of_settings {other : Balancer SeatStore} (same : other.settings = b.settings) :
    other.plan tables hand restHands =
      (arrangement tables).plan (b.rules hand restHands) b.settings.moveLimit := by
  rw [rules, ← same]
  rfl

section

variable (b) (well : WellSeated tables) (hand) (restHands)
include well

/-- A blocked plan leaves those at the fullest table as they were, too lately moved. -/
theorem seat_of_blocked (blocked : (b.plan (inOrder tables) hand restHands).blocked = true)
    {s : Seat}
    (seated : s ∈ (tablesAfter tables (b.plan (inOrder tables) hand restHands) hand).flatMap
      SeatedTable.seats)
    (fullest : s.playerId ∈
      Tables.atFullest (b.plan (inOrder tables) hand restHands).final.tables) :
    s ∈ tables.flatMap SeatedTable.seats ∧
      s.playerId ∉ (reportOf tables (b.plan (inOrder tables) hand restHands) hand).moves.map
        Transfer.playerId ∧
      s.isRestedAt hand restHands = false := by
  have ordered := well.perm (inOrder_perm tables)
  have carries := b.plan_carries ordered hand restHands
  have strict := BalancerSettings.one_le_allowedDiff b.accepted
  obtain ⟨-, restless⟩ := blocked_of_plan strict ordered.players_nodup blocked
  obtain ⟨stays, waits⟩ := restless s.playerId fullest
  obtain ⟨before, on_record, same⟩ :=
    List.mem_map.mp ((b.fulfils_rebalance well hand restHands).seats.mem_iff.mp seated)
  have same_player : before.playerId = s.playerId := by
    rw [← same, playerId_afterMoves]
  have unmoved : before.playerId ∉
      (b.plan (inOrder tables) hand restHands).moves.map TableMove.playerId :=
    same_player ▸ stays
  obtain rfl : before = s := (afterMoves_of_not_mem carries unmoved).symm.trans same
  refine ⟨on_record, fun reported => stays ?_, ?_⟩
  · exact (playerIds_transfers carries).mem_iff.mp reported
  · rw [mayMove, ordered.getElem?_history (mem_seats_inOrder.mpr on_record)] at waits
    exact waits

theorem exists_isFullest_tablesAfter
    (uneven : ¬ LevelWithin b.settings.allowedDiff
      (tablesAfter tables (b.plan (inOrder tables) hand restHands) hand)) :
    ∃ full, IsFullest (tablesAfter tables (b.plan (inOrder tables) hand restHands) hand) full ∧
      full.players = Tables.atFullest (b.plan (inOrder tables) hand restHands).final.tables := by
  rw [← (b.fulfils_rebalance well hand restHands).seating]
  have some_there : inOrder (tablesAfter tables (b.plan (inOrder tables) hand restHands) hand) ≠
      [] := by
    intro empty
    rw [← levelWithin_perm (inOrder_perm _), empty] at uneven
    exact uneven (by simp [LevelWithin])
  obtain ⟨full, fullest, players⟩ := exists_isFullest (inOrder_pairwise _) some_there
  exact ⟨full, isFullest_perm (inOrder_perm _) fullest, players⟩

variable (enough : (tables.flatMap SeatedTable.seats).length ≤ b.settings.moveLimit)
include enough

/-- With a move allowed for every player, the tables are level in the end if the plan is not
blocked, and only then. -/
theorem levelWithin_tablesAfter :
    LevelWithin b.settings.allowedDiff
        (tablesAfter tables (b.plan (inOrder tables) hand restHands) hand) ↔
      (b.plan (inOrder tables) hand restHands).blocked = false := by
  have ordered := well.perm (inOrder_perm tables)
  have strict := BalancerSettings.one_le_allowedDiff b.accepted
  have seating := (b.fulfils_rebalance well hand restHands).seating
  have players : ((inOrder tables).map SeatedTable.players).flatten.length ≤
      b.settings.moveLimit := by
    rw [flatten_players, List.length_map, ((inOrder_perm tables).flatMap_right _).length_eq]
    exact enough
  rw [← levelWithin_perm (inOrder_perm _), ← balanced_iff_levelWithin, seating]
  constructor
  · intro balanced
    by_contra blocked
    rw [Bool.not_eq_false] at blocked
    exact (blocked_of_plan strict ordered.players_nodup blocked).1 balanced
  · exact balanced_of_plan strict ordered.players_nodup players

/-- Where a plan has ended, there is nothing to do, or it is blocked at once if that one was. -/
theorem next_again :
    (arrangement (inOrder (tablesAfter tables (b.plan (inOrder tables) hand restHands)
      hand))).next (b.rules hand restHands) =
        if (b.plan (inOrder tables) hand restHands).blocked then .blocked else .balanced := by
  have fulfilled := b.fulfils_rebalance well hand restHands
  have ordered := fulfilled.well.perm (inOrder_perm _)
  have level := b.levelWithin_tablesAfter hand restHands well enough
  have uneven : (b.plan (inOrder tables) hand restHands).blocked = true →
      ¬ LevelWithin b.settings.allowedDiff
        (tablesAfter tables (b.plan (inOrder tables) hand restHands) hand) :=
    fun blocked is_level => by simp [level.mp is_level] at blocked
  have balanced := level
  rw [← levelWithin_perm (inOrder_perm _), ← balanced_iff_levelWithin] at balanced
  cases blocked : (b.plan (inOrder tables) hand restHands).blocked with
  | false => exact next_eq_balanced_iff.mpr (balanced.mpr blocked)
  | true =>
      obtain ⟨full, fullest, players⟩ :=
        b.exists_isFullest_tablesAfter hand restHands well (uneven blocked)
      refine next_eq_blocked_iff.mpr ⟨fun is_balanced => ?_, fun p seated => ?_⟩
      · exact uneven blocked (level.mpr (balanced.mp is_balanced))
      · rw [arrangement, fulfilled.seating, ← players] at seated
        obtain ⟨s, member, rfl⟩ := List.mem_map.mp seated
        have on_record := List.mem_flatMap.mpr ⟨full, fullest.mem, member⟩
        rw [mayMove, arrangement, ordered.getElem?_history (mem_seats_inOrder.mpr on_record)]
        exact (b.seat_of_blocked hand restHands well blocked on_record (players ▸ seated)).2.2

end

/-- With a move allowed for every player, a rebalancing ends with tables that are level, or it is
blocked: then the tables are not level, and everyone at the fullest one has a seat that was not
changed and has not rested. Doing the same again moves nobody, says the same and keeps nothing. -/
theorem rebalance_settles (present : b.keeper.tables? t = some tables) (well : WellSeated tables)
    (enough : (tables.flatMap SeatedTable.seats).length ≤ b.settings.moveLimit)
    (hand : HandNumber) (restHands : Nat) :
    ∃ report after,
      (b.rebalance t hand restHands).result = .ok report ∧
      (b.rebalance t hand restHands).balancer.keeper.tables? t = some after ∧
      (report.blocked = false → LevelWithin b.settings.allowedDiff after) ∧
      (report.blocked = true → ¬ LevelWithin b.settings.allowedDiff after ∧
        ∃ full, IsFullest after full ∧ ∀ s ∈ full.seats,
          s ∈ tables.flatMap SeatedTable.seats ∧
          s.playerId ∉ report.moves.map Transfer.playerId ∧
          s.isRestedAt hand restHands = false) ∧
      ((b.rebalance t hand restHands).balancer.rebalance t hand restHands).result =
        .ok ⟨[], report.blocked, report.remaining⟩ ∧
      ((b.rebalance t hand restHands).balancer.rebalance t hand restHands).balancer =
        (b.rebalance t hand restHands).balancer := by
  have fulfilled := b.fulfils_rebalance well hand restHands
  have level := b.levelWithin_tablesAfter hand restHands well enough
  have found := tables?_rebalance present well hand restHands
  have kept := settings_rebalance present well hand restHands
  refine ⟨reportOf tables (b.plan (inOrder tables) hand restHands) hand,
    tablesAfter tables (b.plan (inOrder tables) hand restHands) hand,
    result_rebalance present well hand restHands, found, level.mpr, fun blocked => ?_, ?_⟩
  · have uneven : ¬ LevelWithin b.settings.allowedDiff
        (tablesAfter tables (b.plan (inOrder tables) hand restHands) hand) :=
      fun is_level => by simp [reportOf, level.mp is_level] at blocked
    obtain ⟨full, fullest, players⟩ := b.exists_isFullest_tablesAfter hand restHands well uneven
    refine ⟨uneven, full, fullest, fun s seated => ?_⟩
    refine b.seat_of_blocked hand restHands well blocked ?_ ?_
    · exact List.mem_flatMap.mpr ⟨full, fullest.mem, seated⟩
    · exact players ▸ List.mem_map_of_mem seated
  · have again := plan_of_stopped b.moveLimit_ne_zero
      (b.next_again hand restHands well enough)
    rw [← plan_of_settings kept] at again
    obtain ⟨reported, rests⟩ :=
      rebalance_of_idle found fulfilled.well (congrArg BalancePlan.moves again)
    refine ⟨reported.trans (congrArg Except.ok ?_), rests⟩
    have refound := fulfils_rebalance (b.rebalance t hand restHands).balancer fulfilled.well hand
      restHands
    have everyone := fulfilled.seats.length_eq
    rw [List.length_map, ← refound.remaining, ← fulfilled.remaining] at everyone
    rw [again] at everyone ⊢
    rw [← everyone, reportOf, transfers, grouped_nil]
    rfl

/-- Hand 9 with five hands to wait: one of the three players at the full table was moved at hand 8. -/
theorem rebalance_settles_lopsided :
    lopsidedRoom.keeper.tables? 7 = some lopsided ∧ WellSeated lopsided ∧
      (lopsided.flatMap SeatedTable.seats).length ≤ lopsidedRoom.settings.moveLimit ∧
      ∃ report after,
        (lopsidedRoom.rebalance 7 9 5).result = .ok report ∧
        (lopsidedRoom.rebalance 7 9 5).balancer.keeper.tables? 7 = some after ∧
        (report.blocked = false → LevelWithin 1 after) ∧
        ((lopsidedRoom.rebalance 7 9 5).balancer.rebalance 7 9 5).result =
          .ok ⟨[], report.blocked, report.remaining⟩ := by
  have present : lopsidedRoom.keeper.tables? 7 = some lopsided := SeatStore.tables?_withTables ..
  have well : WellSeated lopsided := ⟨by decide, by decide, by decide, by decide⟩
  have enough : (lopsided.flatMap SeatedTable.seats).length ≤ lopsidedRoom.settings.moveLimit := by
    decide
  obtain ⟨report, after, succeeds, kept, settled, -, again, -⟩ :=
    rebalance_settles present well enough 9 5
  exact ⟨present, well, enough, report, after, succeeds, kept, settled, again⟩

end Balancer

end CardRoom
