import Mathlib
import CardRoom.Tournament.Run
import CardRoom.Proofs.Seating.Upkeep
import CardRoom.Proofs.Tournament.Hands

/-! # A visit to one table

After a hand everyone at the table is written down in turn: who has chips keeps the seat with the
new stack, who has none gives it up and is busted. Each of these steps changes that one seat, so
at the end the table has the stacks of the hand, and the other tables are as they were.
-/

namespace CardRoom

namespace SeatedTable

variable {before after : List SeatedTable} {t : SeatedTable} {first rest : List Seat} {r : Seat}

/-- Nobody ahead of a seat on record has its player. -/
theorem ahead_of_seat (well : WellSeated (before ++ t :: after))
    (seats : t.seats = first ++ r :: rest) :
    (∀ u ∈ before, u.seatFor? r.playerId = none) ∧ ∀ s ∈ first, s.playerId ≠ r.playerId := by
  have distinct := well.playerIds
  simp only [List.flatMap_append, List.flatMap_cons, seats, List.map_append, List.map_cons,
    List.append_assoc, List.cons_append] at distinct
  obtain ⟨-, here, outside⟩ := List.nodup_append.mp distinct
  obtain ⟨-, -, inside⟩ := List.nodup_append.mp here
  constructor
  · intro u member
    refine List.find?_eq_none.mpr fun s seated same => ?_
    refine outside s.playerId ?_ r.playerId (by simp) (of_decide_eq_true same)
    exact List.mem_map_of_mem (List.mem_flatMap.mpr ⟨u, member, seated⟩)
  · intro s earlier
    exact inside s.playerId (List.mem_map_of_mem earlier) r.playerId (by simp)

theorem modifyHolder_seated (well : WellSeated (before ++ t :: after))
    (seats : t.seats = first ++ r :: rest) (f : SeatedTable → SeatedTable) :
    modifyHolder (before ++ t :: after) r.playerId f = before ++ f t :: after := by
  apply modify_findIdx_append
  · intro u earlier
    rw [(ahead_of_seat well seats).1 u earlier]
    rfl
  · exact List.find?_isSome.mpr ⟨r, by simp [seats], by simp⟩

theorem isSome_findSeat? (seats : t.seats = first ++ r :: rest) :
    (findSeat? (before ++ t :: after) r.playerId).isSome = true := by
  refine List.findSome?_isSome_iff.mpr ⟨t, by simp, ?_⟩
  exact List.find?_isSome.mpr ⟨r, by simp [seats], by simp⟩

theorem seats_writeStack (seats : t.seats = first ++ r :: rest)
    (others : ∀ s ∈ first, s.playerId ≠ r.playerId) (stack : Chips) :
    (t.writeStack r.playerId stack).seats = first ++ { r with stack } :: rest := by
  show t.seats.modify (t.seats.findIdx (·.playerId = r.playerId)) _ = _
  rw [seats]
  exact modify_findIdx_append (by simpa using others) (by simp) _ rest

end SeatedTable

namespace SeatStore

variable {store : SeatStore} {id : TournamentId} {before after : List SeatedTable}
  {t : SeatedTable} {first rest : List Seat} {r : Seat}

theorem unseat_seated (present : store.tables? id = some (before ++ t :: after))
    (well : WellSeated (before ++ t :: after)) (seats : t.seats = first ++ r :: rest) :
    store.unseat id r.playerId =
        (SeatedTable.findSeat? (before ++ t :: after) r.playerId,
          store.withTables id (before ++ t.remove r.playerId :: after)) ∧
      WellSeated (before ++ t.remove r.playerId :: after) := by
  have changed := SeatedTable.modifyHolder_seated well seats (·.remove r.playerId)
  have thinned := SeatedTable.modify_thin well (fun t => (t.seatFor? r.playerId).isSome)
    (f := (·.remove r.playerId)) (fun _ => rfl) fun _ => List.eraseP_sublist
  constructor
  · rw [unseat, present]
    simp only [changed]
  · rw [← changed]
    exact thinned.1

theorem writeStack_seated (present : store.tables? id = some (before ++ t :: after))
    (well : WellSeated (before ++ t :: after)) (seats : t.seats = first ++ r :: rest)
    (stack : Chips) :
    store.writeStack id r.playerId stack =
        .ok (store.withTables id (before ++ t.writeStack r.playerId stack :: after)) ∧
      WellSeated (before ++ t.writeStack r.playerId stack :: after) := by
  have changed := SeatedTable.modifyHolder_seated well seats (·.writeStack r.playerId stack)
  have written := (SeatedTable.modifyHolder_writeStack well r.playerId stack).1
  constructor
  · rw [writeStack, SeatStore.tables, present]
    simp only [bind, Except.bind, SeatedTable.isSome_findSeat? seats, if_true, changed]
    rfl
  · rw [← changed]
    exact written

end SeatStore

namespace Tournament

/-! ## What a hand leaves of the seats -/

/-- The seat of a player after a hand, if the player has chips. -/
def stay? (r : Seat) (stack : Chips) : Option Seat := if stack = 0 then none else some { r with stack }

def stayed (seats : List Seat) (holdings : List (PlayerId × Chips)) : List Seat :=
  (seats.zip holdings).filterMap fun (r, holding) => stay? r holding.2

def busts (holdings : List (PlayerId × Chips)) : List PlayerId :=
  (holdings.filter (·.2 = 0)).map Prod.fst

/-- A table before and after a hand, with the players who gave up their seats. -/
structure Played (before after : SeatedTable) (gone : List PlayerId) : Prop where
  chips : after.chips = before.chips
  solvent : ∀ s ∈ after.seats, s.stack ≠ 0
  accounted : (after.players ++ gone).Perm before.players

section

variable {r : Seat} {stack : Chips} {seats : List Seat} {holdings : List (PlayerId × Chips)}

theorem stayed_cons (r : Seat) (seats : List Seat) (holding : PlayerId × Chips)
    (holdings : List (PlayerId × Chips)) :
    stayed (r :: seats) (holding :: holdings) =
      (stay? r holding.2).toList ++ stayed seats holdings := by
  simp only [stayed, List.zip_cons_cons, List.filterMap_cons]
  cases stay? r holding.2 <;> rfl

theorem busts_cons (holding : PlayerId × Chips) (holdings : List (PlayerId × Chips)) :
    busts (holding :: holdings) = busts [holding] ++ busts holdings := by
  rw [busts, ← List.singleton_append, List.filter_append, List.map_append]
  rfl

theorem count_stay (r : Seat) (stack : Chips) :
    tally ((stay? r stack).toList.map (·.stack.count)) = stack.count := by
  by_cases broke : stack = 0
  · rw [stay?, if_pos broke, broke]
    rfl
  · rw [stay?, if_neg broke]
    exact Nat.add_zero stack.count

theorem players_stay (r : Seat) (stack : Chips) :
    (stay? r stack).toList.map Seat.playerId ++ busts [(r.playerId, stack)] = [r.playerId] := by
  by_cases broke : stack = 0
  · simp [stay?, busts, broke]
  · simp [stay?, busts, broke]

theorem chips_stayed (ids : holdings.map Prod.fst = seats.map Seat.playerId) :
    tally ((stayed seats holdings).map (·.stack.count)) = tally (holdings.map (·.2.count)) := by
  induction seats generalizing holdings with
  | nil =>
      obtain rfl := List.map_eq_nil_iff.mp ids
      rfl
  | cons r seats ih =>
      obtain ⟨holding, holdings, rfl, -, later⟩ := List.map_eq_cons_iff.mp ids
      rw [stayed_cons, List.map_append, tally_append, count_stay, ih later, List.map_cons,
        tally_cons]

theorem players_stayed (ids : holdings.map Prod.fst = seats.map Seat.playerId) :
    ((stayed seats holdings).map Seat.playerId ++ busts holdings).Perm
      (seats.map Seat.playerId) := by
  induction seats generalizing holdings with
  | nil =>
      obtain rfl := List.map_eq_nil_iff.mp ids
      exact List.Perm.refl _
  | cons r seats ih =>
      obtain ⟨⟨p, stack⟩, holdings, rfl, own, later⟩ := List.map_eq_cons_iff.mp ids
      obtain rfl : p = r.playerId := own
      refine List.perm_iff_count.mpr fun q => ?_
      have here := congrArg (List.count q) (players_stay r stack)
      have others := (ih later).count_eq q
      rw [stayed_cons, busts_cons _ holdings]
      simp only [List.map_append, List.map_cons, List.count_append, List.count_cons,
        List.count_nil] at here others ⊢
      omega

theorem played_stayed {t u : SeatedTable} (left : u.seats = stayed t.seats holdings)
    (ids : holdings.map Prod.fst = t.players)
    (chips : tally (holdings.map (·.2.count)) = t.chips) : Played t u (busts holdings) where
  chips := by rw [SeatedTable.chips, left, chips_stayed ids, chips]
  solvent := by
    rw [left]
    intro s member
    obtain ⟨⟨r, holding⟩, -, stays⟩ := List.mem_filterMap.mp member
    obtain ⟨solvent, same⟩ := Option.ite_none_left_eq_some.mp stays
    rw [← Option.some.inj same]
    exact solvent
  accounted := by
    rw [SeatedTable.players, left]
    exact players_stayed ids

end

/-! ## Writing the stacks down -/

section

variable {σ : Type} (hand : HandNumber) {s : State σ} {before after : List SeatedTable}
  {t : SeatedTable} {first rest : List Seat} {r : Seat}

/-- Writing down one player changes that player's seat and nothing else. -/
theorem recordStack_seated (on_record : s.store.tables? tournament = some (before ++ t :: after))
    (well : WellSeated (before ++ t :: after)) (seats : t.seats = first ++ r :: rest)
    (stack : Chips) :
    ∃ s' u, recordStack hand t.id s (r.playerId, stack) = .ok s' ∧
      s'.store.tables? tournament = some (before ++ u :: after) ∧
      WellSeated (before ++ u :: after) ∧ u.id = t.id ∧
      u.seats = first ++ (stay? r stack).toList ++ rest ∧
      s'.busted = s.busted ++ busts [(r.playerId, stack)] := by
  have others := (SeatedTable.ahead_of_seat well seats).2
  by_cases broke : stack = 0
  · obtain ⟨left, still_well⟩ := SeatStore.unseat_seated on_record well seats
    refine ⟨_, t.remove r.playerId, by rw [recordStack, if_pos broke, left], ?_, still_well, rfl,
      ?_, ?_⟩
    · exact SeatStore.tables?_withTables ..
    · rw [SeatedTable.seats_remove seats others, stay?, if_pos broke, Option.toList_none,
        List.append_nil]
    · rw [busts, List.filter_cons_of_pos (by simpa using broke)]
      rfl
  · obtain ⟨written, still_well⟩ := SeatStore.writeStack_seated on_record well seats stack
    refine ⟨_, t.writeStack r.playerId stack, by rw [recordStack, if_neg broke, written], ?_,
      still_well, rfl, ?_, ?_⟩
    · exact SeatStore.tables?_withTables ..
    · rw [SeatedTable.seats_writeStack seats others, stay?, if_neg broke, Option.toList_some,
        List.append_assoc, List.singleton_append]
    · rw [busts, List.filter_cons_of_neg (by simpa using broke)]
      exact (List.append_nil s.busted).symm

theorem recordStacks_seated {holdings : List (PlayerId × Chips)}
    (on_record : s.store.tables? tournament = some (before ++ t :: after))
    (well : WellSeated (before ++ t :: after)) (seats : t.seats = first ++ rest)
    (ids : holdings.map Prod.fst = rest.map Seat.playerId) :
    ∃ s' u, holdings.foldlM (recordStack hand t.id) s = .ok s' ∧
      s'.store.tables? tournament = some (before ++ u :: after) ∧
      WellSeated (before ++ u :: after) ∧ u.seats = first ++ stayed rest holdings ∧
      s'.busted = s.busted ++ busts holdings := by
  -- Induction on the seats to come; `first` collects those that are written down already.
  induction rest generalizing s t first holdings with
  | nil =>
      obtain rfl := List.map_eq_nil_iff.mp ids
      exact ⟨s, t, rfl, on_record, well, seats, (List.append_nil s.busted).symm⟩
  | cons r rest ih =>
      obtain ⟨⟨p, stack⟩, holdings, rfl, own, later⟩ := List.map_eq_cons_iff.mp ids
      obtain rfl : p = r.playerId := own
      obtain ⟨s₁, t₁, done, on_record₁, well₁, same, seats₁, busted₁⟩ :=
        recordStack_seated hand on_record well seats stack
      obtain ⟨s₂, t₂, all_done, on_record₂, well₂, seats₂, busted₂⟩ :=
        ih on_record₁ well₁ seats₁ later
      refine ⟨s₂, t₂, ?_, on_record₂, well₂, ?_, ?_⟩
      · rw [List.foldlM_cons, done, ← same]
        exact all_done
      · rw [seats₂, stayed_cons, List.append_assoc]
      · rw [busted₂, busted₁, busts_cons _ holdings, List.append_assoc]

/-- A visit succeeds. It keeps the chips at its table, with everyone there in chips or busted,
and the other tables. -/
theorem visitTable_plays [Shuffler σ]
    (on_record : s.store.tables? tournament = some (before ++ t :: after))
    (well : WellSeated (before ++ t :: after)) (solvent : ∀ r ∈ t.seats, r.stack ≠ 0)
    (fits : t.chips ≤ cap) :
    ∃ s' u gone, visitTable hand s t = .ok s' ∧
      s'.store.tables? tournament = some (before ++ u :: after) ∧
      WellSeated (before ++ u :: after) ∧ Played t u gone ∧ s'.busted = s.busted ++ gone := by
  unfold visitTable
  by_cases few : t.count < 2
  · rw [if_pos few]
    refine ⟨s, t, [], rfl, on_record, well, ⟨rfl, solvent, ?_⟩, (List.append_nil s.busted).symm⟩
    rw [List.append_nil]
  · have distinct : t.players.Nodup :=
      (List.nodup_flatten.mp well.players_nodup).1 _ (List.mem_map_of_mem (by simp))
    obtain ⟨ids, chips⟩ := playTable_keeps s.source hand distinct (Nat.not_lt.mp few) fits
    rw [if_neg few]
    cases played : playTable s.source hand t with
    | mk outcome source =>
        obtain ⟨holdings, notes⟩ := outcome
        simp only [played] at ids chips ⊢
        obtain ⟨s', u, done, on_record', well', seats, busted⟩ :=
          recordStacks_seated (s := ({ s with source }).add (notes.map .note)) hand
            on_record well (List.nil_append t.seats).symm ids
        exact ⟨s', u, _, done, on_record', well', played_stayed seats ids chips, busted⟩

end

end Tournament

end CardRoom
