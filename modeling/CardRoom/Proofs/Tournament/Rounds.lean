import Mathlib
import CardRoom.Tournament.Report
import CardRoom.Proofs.Payout.Recall
import CardRoom.Proofs.Seating.Rebalance
import CardRoom.Proofs.Seating.Occupancy
import CardRoom.Proofs.Tournament.Visits

/-! # A tournament from hand to hand

Between two hands all tables are still there with somebody at each, everyone seated has chips,
and all chips and all players of the start are accounted for. A hand keeps it so, whatever
cards it deals: at each table somebody collects the pot, so no table is left without players, and
rebalancing takes players away from the fullest tables only. At any time there are therefore
as many players as tables at least, and the prizes can be divided among them.
-/

namespace CardRoom.Tournament

/-- The state of a tournament between two hands, with the tables on record. -/
structure Orderly {σ : Type} (s : State σ) (tables : List SeatedTable) : Prop where
  on_record : s.store.tables? tournament = some tables
  well : WellSeated tables
  number : tables.length = tableCount
  occupied : ∀ t ∈ tables, t.seats ≠ []
  solvent : ∀ r ∈ tables.flatMap SeatedTable.seats, r.stack ≠ 0
  chips : tally ((tables.flatMap SeatedTable.seats).map (·.stack.count)) =
    tableCount * seatsPerTable * startingStack
  accounted : ((tables.flatMap SeatedTable.seats).map Seat.playerId ++ s.busted).Perm
    (startingSeats.map Seat.playerId)

variable {σ : Type} {s : State σ} {tables before after : List SeatedTable} {t u : SeatedTable}

/-- A table with chips keeps somebody. -/
theorem Played.occupied {gone : List PlayerId} (played : Played t u gone) (someone : t.seats ≠ [])
    (solvent : ∀ r ∈ t.seats, r.stack ≠ 0) : u.seats ≠ [] := by
  intro nobody
  obtain ⟨r, seated⟩ := List.exists_mem_of_ne_nil t.seats someone
  have own : r.stack.count ≤ t.chips :=
    le_tally (List.mem_map_of_mem (f := fun r : Seat => r.stack.count) seated)
  rw [← played.chips, SeatedTable.chips, nobody] at own
  exact solvent r seated (Chips.count_eq_zero.mp (Nat.le_zero.mp own))

namespace Orderly

/-! ## The tables in turn -/

theorem tally_chips (orderly : Orderly s tables) :
    tally (tables.map SeatedTable.chips) = tableCount * seatsPerTable * startingStack := by
  rw [← orderly.chips, tally_flatMap]
  rfl

theorem chips_le_cap (orderly : Orderly s tables) (listed : t ∈ tables) : t.chips ≤ cap := by
  have part : t.chips ≤ tally (tables.map SeatedTable.chips) :=
    le_tally (List.mem_map_of_mem listed)
  rw [orderly.tally_chips] at part
  exact part.trans (by decide)

theorem replace {s' : State σ} {gone : List PlayerId} (orderly : Orderly s (before ++ t :: after))
    (on_record : s'.store.tables? tournament = some (before ++ u :: after))
    (well : WellSeated (before ++ u :: after)) (played : Played t u gone)
    (busted : s'.busted = s.busted ++ gone) : Orderly s' (before ++ u :: after) where
  on_record := on_record
  well := well
  number := by
    rw [← orderly.number, List.length_append, List.length_append]
    rfl
  occupied := by
    have had := orderly.occupied
    have solvent : ∀ r ∈ t.seats, r.stack ≠ 0 := fun r seated =>
      orderly.solvent r (List.mem_flatMap.mpr ⟨t, by simp, seated⟩)
    intro v listed
    rcases List.mem_append.mp listed with earlier | rest
    · exact had v (by simp [earlier])
    · rcases List.mem_cons.mp rest with rfl | later
      · exact played.occupied (had t (by simp)) solvent
      · exact had v (by simp [later])
  solvent := by
    have had := orderly.solvent
    simp only [List.flatMap_append, List.flatMap_cons, List.mem_append] at had ⊢
    rintro r (earlier | here | later)
    · exact had r (.inl earlier)
    · exact played.solvent r here
    · exact had r (.inr (.inr later))
  chips := by
    have same := played.chips
    have total := orderly.tally_chips
    rw [tally_flatMap]
    show tally ((before ++ u :: after).map SeatedTable.chips) = _
    rw [← total]
    simp only [List.map_append, List.map_cons, tally_append, tally_cons, same]
  accounted := by
    refine List.Perm.trans (List.perm_iff_count.mpr fun p => ?_) orderly.accounted
    have here := played.accounted.count_eq p
    rw [busted]
    simp only [SeatedTable.players, List.flatMap_append, List.flatMap_cons, List.map_append,
      List.count_append] at here ⊢
    omega

theorem visit [Shuffler σ] (orderly : Orderly s (before ++ t :: after)) (hand : HandNumber) :
    ∃ s' u, visitTable hand s t = .ok s' ∧ Orderly s' (before ++ u :: after) := by
  have listed : t ∈ before ++ t :: after := by simp
  obtain ⟨s', u, gone, done, on_record, well, played, busted⟩ :=
    visitTable_plays hand orderly.on_record orderly.well
      (fun r seated => orderly.solvent r (List.mem_flatMap.mpr ⟨t, listed, seated⟩))
      (orderly.chips_le_cap listed)
  exact ⟨s', u, done, orderly.replace on_record well played busted⟩

theorem visits [Shuffler σ] (hand : HandNumber) (visited : List SeatedTable)
    (orderly : Orderly s (visited ++ tables)) :
    ∃ s' after, tables.foldlM (visitTable hand) s = .ok s' ∧ Orderly s' after := by
  -- The tables to come are still as they were when the hand began, since a visit changes one only.
  induction tables generalizing s visited with
  | nil => exact ⟨s, visited ++ [], rfl, orderly⟩
  | cons t tables ih =>
      obtain ⟨s₁, u, done, orderly₁⟩ := orderly.visit hand
      rw [List.append_cons] at orderly₁
      obtain ⟨s₂, after, all_done, orderly₂⟩ := ih (visited ++ [u]) orderly₁
      refine ⟨s₂, after, ?_, orderly₂⟩
      rw [List.foldlM_cons, done]
      exact all_done

/-! ## Closing and rebalancing -/

theorem close (orderly : Orderly s tables) (hand : HandNumber) :
    Orderly (closeTables hand s) tables := by
  have all_filled : tables.filter (!·.seats.isEmpty) = tables := by
    apply List.filter_eq_self.mpr
    intro t listed
    simpa using orderly.occupied t listed
  have kept : (closeTables hand s).store.tables? tournament = some tables := by
    unfold closeTables SeatStore.closeEmpty
    simp only [orderly.on_record, all_filled]
    exact SeatStore.tables?_withTables ..
  have busted : (closeTables hand s).busted = s.busted := rfl
  exact { orderly with on_record := kept, accounted := busted ▸ orderly.accounted }

theorem rebalance (orderly : Orderly s tables) (places : Nat) (hand : HandNumber) :
    ∃ s' after, rebalanceTables places hand s = .ok s' ∧ Orderly s' after := by
  have done := Balancer.result_rebalance orderly.on_record orderly.well hand
    s.balancer.settings.restHands
  have kept := Balancer.tables?_rebalance orderly.on_record orderly.well hand
    s.balancer.settings.restHands
  have fulfilled := Balancer.fulfils_rebalance s.balancer orderly.well hand
    s.balancer.settings.restHands
  unfold rebalanceTables Balancer.rebalanceByDefault
  simp only [done]
  refine ⟨_, _, rfl, kept, fulfilled.well, ?_, ?_, ?_, ?_, ?_⟩
  · have same := congrArg List.length fulfilled.tables
    rw [List.length_map, List.length_map] at same
    rw [same, orderly.number]
  · exact Balancer.occupied_rebalance _ orderly.well orderly.occupied _ _
  · intro r seated
    obtain ⟨q, was, rfl⟩ := List.mem_map.mp (fulfilled.seats.mem_iff.mp seated)
    rw [stack_afterMoves]
    exact orderly.solvent q was
  · rw [tally_perm (fulfilled.seats.map (·.stack.count)), ← orderly.chips, List.map_map]
    simp only [Function.comp_def, stack_afterMoves]
  · refine List.Perm.trans (List.Perm.append_right _ ?_) orderly.accounted
    refine (fulfilled.seats.map Seat.playerId).trans (List.Perm.of_eq ?_)
    rw [List.map_map]
    exact List.map_congr_left fun r _ => playerId_afterMoves _ _ r

/-! ## Hand after hand -/

theorem round [Shuffler σ] (orderly : Orderly s tables) (places : Nat) (hand : HandNumber) :
    ∃ s' after, playRound places hand tables s = .ok s' ∧ Orderly s' after := by
  obtain ⟨s₁, visited, done, orderly₁⟩ := visits hand [] orderly
  obtain ⟨s₂, after, rebalanced, orderly₂⟩ := (orderly₁.close hand).rebalance places hand
  refine ⟨s₂, after, ?_, orderly₂⟩
  rw [playRound, done]
  exact rebalanced

theorem run [Shuffler σ] (orderly : Orderly s tables) (places left : Nat) (hand : HandNumber) :
    ∃ s' after, playOn places left hand s = .ok s' ∧ Orderly s' after := by
  induction left generalizing s tables hand with
  | zero => exact ⟨s, tables, rfl, orderly⟩
  | succ left ih =>
      have found : s.store.tables tournament = .ok tables := by
        rw [SeatStore.tables, orderly.on_record]
      unfold playOn
      simp only [found]
      by_cases in_money : tally (tables.map SeatedTable.count) ≤ places
      · rw [if_pos in_money]
        exact ⟨_, tables, rfl, { orderly with }⟩
      · obtain ⟨s₁, after, played, orderly₁⟩ := orderly.round places hand
        simp only [if_neg in_money, played]
        exact ih orderly₁ (hand + 1)

/-! ## The players who are left -/

theorem length_survivors_le (orderly : Orderly s tables) :
    (tables.flatMap SeatedTable.seats).length ≤ 18 := by
  have all := orderly.accounted.length_eq
  have players : (startingSeats.map Seat.playerId).length = 18 := rfl
  rw [players, List.length_append, List.length_map] at all
  omega

theorem le_length_survivors (orderly : Orderly s tables) :
    3 ≤ (tables.flatMap SeatedTable.seats).length := by
  have each : tally (tables.map fun _ => 1) ≤ tally (tables.map SeatedTable.count) :=
    tally_le_tally fun t listed => List.length_pos_iff.mpr (orderly.occupied t listed)
  rw [tally_const, Nat.one_mul, orderly.number, tally_eq_sum] at each
  rwa [List.length_flatMap]

/-- The prizes can be divided among the players who are left. -/
theorem payouts_accepted (orderly : Orderly s tables) (prizes : List Nat) :
    let survivors := tables.flatMap SeatedTable.seats
    ∃ payouts, Icm.payouts (survivors.map (·.stack.count)) (prizes.take survivors.length)
      Icm.maxPlayers = .ok payouts := by
  intro survivors
  have few : survivors.length ≤ 18 := orderly.length_survivors_le
  have some_left : 3 ≤ survivors.length := orderly.le_length_survivors
  have accepted : Icm.check (survivors.map (·.stack.count)) (prizes.take survivors.length)
      Icm.maxPlayers = .ok () := by
    rw [Icm.check_eq_ok_iff, List.length_map]
    refine ⟨?_, ?_, ?_, List.length_take_le ..⟩
    · exact mt List.map_eq_nil_iff.mp (List.ne_nil_of_length_pos (by omega))
    · intro n member broke
      obtain ⟨r, seated, rfl⟩ := List.mem_map.mp member
      exact orderly.solvent r seated (Chips.count_eq_zero.mp broke)
    · rw [Nat.min_self, Icm.maxPlayers]
      omega
  exact ⟨_, by rw [Icm.payouts, accepted]; rfl⟩

end Orderly

/-! ## From the start -/

/-- The tables with everyone seated. -/
def openingTables : List SeatedTable :=
  (List.range tableCount).map fun t => ⟨100 + t, startingSeats.filter (·.tableId = 100 + t)⟩

theorem exists_openingStore :
    ∃ store, openingStore = .ok store ∧ store.tables? tournament = some openingTables := by
  have seated : openingStore.toOption.bind (·.tables? tournament) = some openingTables := rfl
  cases done : openingStore with
  | error e =>
      rw [done] at seated
      cases seated
  | ok store =>
      rw [done] at seated
      exact ⟨store, rfl, seated⟩

theorem orderly_opening {s : State σ} (on_record : s.store.tables? tournament = some openingTables)
    (nobody : s.busted = []) : Orderly s openingTables where
  on_record := on_record
  well := ⟨by decide, by decide, by decide, by decide⟩
  number := rfl
  occupied := by decide
  solvent := by decide
  chips := by decide
  accounted := by
    rw [nobody, List.append_nil]
    exact List.Perm.of_eq (by decide)

theorem create_of_accepted {κ : Type} (keeper : κ) {settings : BalancerSettings}
    (accepted : settings.check = .ok ()) :
    Balancer.create keeper settings = .ok ⟨keeper, settings, accepted⟩ := by
  unfold Balancer.create
  split
  · rfl
  · rename_i refused
    rw [accepted] at refused
    cases refused

theorem start_orderly (source : σ) {settings : BalancerSettings}
    (accepted : settings.check = .ok ()) :
    ∃ opening, start source settings = .ok (opening, [9000, 5400, 3600]) ∧
      Orderly opening openingTables := by
  obtain ⟨store, seated, on_record⟩ := exists_openingStore
  have prizes : Ladder.prizes prizePool shares = .ok [9000, 5400, 3600] := rfl
  refine ⟨{ source, balancer := ⟨store, settings, accepted⟩ }, ?_, orderly_opening on_record rfl⟩
  simp only [start, seated, create_of_accepted _ accepted, prizes]
  rfl

/-- However the cards fall and however long it goes on, a tournament with accepted settings never
breaks off. After any number of hands all chips of the start lie in stacks, none of them empty,
everyone who started is seated once or busted once, no table is left empty, and the prizes can be
divided among the players left. -/
theorem tournament_keeps_chips [Shuffler σ] (source : σ) {settings : BalancerSettings}
    (accepted : settings.check = .ok ()) (hands : Nat) :
    ∃ opening prizes state tables,
      start source settings = .ok (opening, prizes) ∧
      playOn prizes.length hands 1 opening = .ok state ∧
      Orderly state tables ∧
      let survivors := tables.flatMap SeatedTable.seats
      3 ≤ survivors.length ∧ survivors.length ≤ 18 ∧
      ∃ payouts, Icm.payouts (survivors.map (·.stack.count)) (prizes.take survivors.length)
        Icm.maxPlayers = .ok payouts := by
  obtain ⟨opening, started, orderly⟩ := start_orderly source accepted
  obtain ⟨state, tables, played, still_orderly⟩ := orderly.run 3 hands 1
  exact ⟨opening, _, state, tables, started, played, still_orderly,
    still_orderly.le_length_survivors, still_orderly.length_survivors_le,
    still_orderly.payouts_accepted _⟩

theorem tournament_keeps_chips_fixedSeed :
    ({} : BalancerSettings).check = .ok () ∧
      ∃ opening prizes state tables,
        start (Random.Stream.ofSeed seed) {} = .ok (opening, prizes) ∧
        playOn prizes.length handLimit 1 opening = .ok state ∧ Orderly state tables ∧
        3 ≤ (tables.flatMap SeatedTable.seats).length := by
  obtain ⟨opening, prizes, state, tables, started, played, orderly, some_left, -⟩ :=
    tournament_keeps_chips (Random.Stream.ofSeed seed) BalancerSettings.check_default handLimit
  exact ⟨BalancerSettings.check_default, opening, prizes, state, tables, started, played, orderly,
    some_left⟩

end CardRoom.Tournament
