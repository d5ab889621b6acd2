import Mathlib
import CardRoom.Tournament.Play
import CardRoom.Proofs.Cards.Dealing
import CardRoom.Proofs.Pot.Conservation
import CardRoom.Proofs.Pot.Layers

/-! # A hand at one table

The bets of a hand fall into the layers of its pot, so stacks and pot together are what the
stacks were before. One player folds at most, and a layer that only one player reached lists a
player at the table. The showdown therefore pays out the whole pot, and the stacks after a hand
add up to the stacks before it, whatever the cards are.
-/

namespace CardRoom

/-! ## As many hands as players -/

section

variable {σ : Type} [Shuffler σ]

theorem length_hands_of_deal {source : σ} {players hole board : Nat} {cards : Deal}
    (dealt : (deal source players hole board).1 = some cards) : cards.hands.length = players := by
  obtain ⟨-, rfl⟩ := deal_eq_some_iff.mp dealt
  exact Deck.length_drawHands ..

end

/-- All chips at a table, never cut off. -/
def SeatedTable.chips (t : SeatedTable) : Nat := tally (t.seats.map (·.stack.count))

namespace Tournament

variable {hand : HandNumber} {seats : List Seat} {cards : Deal}

/-! ## The table at the showdown -/

/-- The player at the showdown for a seat, but for the cards. -/
def entrant (hand : HandNumber) (seats : List Seat) (s : Seat) (hole : List Card) : Player where
  id := s.playerId
  stack := s.stack - min s.stack (bet hand)
  folded := folder? hand seats = some s.playerId
  holeCards := some hole

theorem players_showdown (hand : HandNumber) (seats : List Seat) (cards : Deal) :
    (showdown hand seats cards).players = seats.zipWith (entrant hand seats) cards.hands := rfl

/-- What can be told of a player without the cards can be told of the seat. -/
theorem map_players_showdown {β : Type} {f : Player → β} {g : Seat → β}
    (enough : cards.hands.length = seats.length)
    (blind : ∀ s hole, f (entrant hand seats s hole) = g s) :
    (showdown hand seats cards).players.map f = seats.map g := by
  rw [players_showdown, List.map_zipWith]
  apply List.ext_getElem
  · simp [enough]
  · intro i _ _
    simp only [List.getElem_zipWith, List.getElem_map, blind]

theorem ids_showdown (enough : cards.hands.length = seats.length) :
    (showdown hand seats cards).players.map Player.id = seats.map Seat.playerId :=
  map_players_showdown enough fun _ _ => rfl

theorem held_add_contributions (hand : HandNumber) (enough : cards.hands.length = seats.length) :
    held (showdown hand seats cards).players + tally ((contributions hand seats).map (·.2.count)) =
      tally (seats.map (·.stack.count)) := by
  have left : ∀ s hole, (entrant hand seats s hole).stack.count =
      s.stack.count - (bet hand).count := by
    intro s hole
    rw [entrant, Chips.count_sub, Chips.count_min]
    omega
  rw [held, map_players_showdown enough left, contributions, List.map_map]
  clear enough left
  induction seats with
  | nil => rfl
  | cons s seats ih =>
      simp only [List.map_cons, tally_cons, Function.comp_apply, Chips.count_min] at ih ⊢
      omega

/-- Of two players one is active, since at most one folds. -/
theorem exists_active (hand : HandNumber) (enough : cards.hands.length = seats.length)
    (distinct : (seats.map Seat.playerId).Nodup) (two : 2 ≤ seats.length) :
    ∃ p ∈ (showdown hand seats cards).players, p.folded = false := by
  obtain ⟨first, second, rest, rfl⟩ : ∃ first second rest, seats = first :: second :: rest := by
    match seats, two with
    | first :: second :: rest, _ => exact ⟨first, second, rest, rfl⟩
  have apart : first.playerId ≠ second.playerId := by
    simp only [List.map_cons, List.nodup_cons, List.mem_cons, not_or] at distinct
    exact distinct.1.1
  obtain ⟨s, seated, plays⟩ : ∃ s ∈ first :: second :: rest,
      folder? hand (first :: second :: rest) ≠ some s.playerId := by
    by_cases folds : folder? hand (first :: second :: rest) = some first.playerId
    · refine ⟨second, by simp, ?_⟩
      rw [folds]
      exact fun same => apart (Option.some.inj same)
    · exact ⟨first, by simp, folds⟩
  have folded : (showdown hand (first :: second :: rest) cards).players.map Player.folded =
      (first :: second :: rest).map fun s =>
        decide (folder? hand (first :: second :: rest) = some s.playerId) :=
    map_players_showdown enough fun _ _ => rfl
  rw [← List.mem_map, folded]
  exact List.mem_map.mpr ⟨s, seated, decide_eq_false plays⟩

/-- Whoever is alone in a layer has a seat. -/
theorem exists_of_alone (enough : cards.hands.length = seats.length) {side : SidePot}
    (listed : side ∈ (showdown hand seats cards).sidePots) {id : PlayerId}
    (alone : side.players = [id]) : ∃ p ∈ (showdown hand seats cards).players, p.id = id := by
  obtain ⟨lower, level, rfl, -⟩ :=
    SidePot.exists_of_mem_above (SidePot.Remaining.start (contributions hand seats)) listed
  obtain ⟨entry, reached, same⟩ := List.mem_map.mp (alone ▸ List.mem_singleton_self id :
    id ∈ (SidePot.between (contributions hand seats) lower level).players)
  obtain ⟨s, seated, rfl⟩ := List.mem_map.mp (List.mem_of_mem_filter reached)
  rw [← List.mem_map, ids_showdown enough, ← same]
  exact List.mem_map_of_mem seated

theorem allChips_showdown (hand : HandNumber) (enough : cards.hands.length = seats.length)
    (fits : tally (seats.map (·.stack.count)) ≤ cap) :
    (showdown hand seats cards).allChips = tally (seats.map (·.stack.count)) := by
  have parts := held_add_contributions hand enough
  have layers : tally ((showdown hand seats cards).sidePots.map (·.amount.count)) =
      tally ((contributions hand seats).map (·.2.count)) :=
    SidePot.tally_amounts_layers (by omega)
  rw [Showdown.allChips, layers, ← parts]
  exact congrArg _ (Nat.zero_add _)

/-! ## After the showdown -/

theorem settle_showdown (judge : Judge) (hand : HandNumber)
    (enough : cards.hands.length = seats.length) (distinct : (seats.map Seat.playerId).Nodup)
    (two : 2 ≤ seats.length) (fits : tally (seats.map (·.stack.count)) ≤ cap) :
    let after := ((showdown hand seats cards).settle judge).1.players
    after.map Player.id = seats.map Seat.playerId ∧
      held after = tally (seats.map (·.stack.count)) := by
  have someone := exists_active hand enough distinct two
  have all := allChips_showdown hand enough fits
  have credited := Showdown.tally_amount_credits judge someone (all.trans_le fits)
  have stake := Showdown.count_atStake (all.trans_le fits)
  rw [Showdown.settle_of_someone someone]
  refine ⟨(map_id_creditAll _ _).trans (ids_showdown enough), ?_⟩
  rw [held_creditAll, credited, stake]
  · exact all
  · exact fun _ => Showdown.position_lt_of_mem_credits
      fun _ listed _ => exists_of_alone enough listed
  · rw [credited, stake]
    exact all.trans_le fits

/-- A hand leaves everyone at the table in place and only moves chips between them. -/
theorem playTable_keeps {σ : Type} [Shuffler σ] (source : σ) (hand : HandNumber)
    {table : SeatedTable} (distinct : table.players.Nodup) (two : 2 ≤ table.count)
    (fits : table.chips ≤ cap) :
    let holdings := (playTable source hand table).1.1
    holdings.map Prod.fst = table.players ∧
      tally (holdings.map (·.2.count)) = table.chips := by
  unfold playTable
  cases dealt : deal source table.count 2 5 with
  | mk cards source =>
      cases cards with
      | none => simp [SeatedTable.players, SeatedTable.chips, Function.comp_def]
      | some cards =>
          have enough := length_hands_of_deal (congrArg Prod.fst dealt)
          simp only [List.map_map]
          exact settle_showdown Hand.judge hand enough distinct two fits

end Tournament

end CardRoom
