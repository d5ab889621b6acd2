import Mathlib
import CardRoom.Proofs.Pot.Conservation
import CardRoom.Proofs.Pot.Growth

/-! # Refunds of absent players

A refund goes to the first player with its id and to nobody when there is none. Every refund is
paid exactly when each filled side pot of a single player names a seated one, and the refunds of
absent players are the only chips that leave the table.
-/

namespace CardRoom

variable {players : List Player} {credits : List Credit}

/-- Credits beyond the last place change nothing. -/
theorem creditAll_filter (players : List Player) (credits : List Credit) :
    creditAll players (credits.filter (·.position < players.length)) =
      creditAll players credits := by
  apply List.ext_getElem?
  intro i
  rw [getElem?_creditAll, getElem?_creditAll]
  cases here : players[i]? with
  | none => rfl
  | some p =>
      have bound := (List.getElem?_eq_some_iff.mp here).1
      have inside : (credits.filter (·.position < players.length)).filter (·.position = i) =
          credits.filter (·.position = i) := by
        rw [List.filter_filter]
        refine List.filter_congr fun c _ => ?_
        by_cases own : c.position = i <;> simp [own, bound]
      rw [inside]

theorem tally_filter_add_not {α : Type} (p : α → Bool) (g : α → Nat) (xs : List α) :
    tally ((xs.filter p).map g) + tally ((xs.filter (!p ·)).map g) = tally (xs.map g) := by
  induction xs with
  | nil => rfl
  | cons x xs ih =>
      cases holds : p x <;> simp [holds, ← ih] <;> omega

/-- What is credited beyond the last place is lost, and nothing else. -/
theorem held_creditAll_add_lost
    (fits : held players + tally (credits.map (·.amount.count)) ≤ cap) :
    held (creditAll players credits) +
        tally ((credits.filter fun c => !decide (c.position < players.length)).map
          (·.amount.count)) =
      held players + tally (credits.map (·.amount.count)) := by
  have parts := tally_filter_add_not (fun c : Credit => decide (c.position < players.length))
    (·.amount.count) credits
  have inside : ∀ c ∈ credits.filter (·.position < players.length), c.position < players.length :=
    fun c member => by simpa using (List.mem_filter.mp member).2
  rw [← creditAll_filter, held_creditAll inside (by omega)]
  omega

/-! ## Refunds at a showdown -/

/-- What an account says went back to players who are not among these. -/
def Settlement.lost (account : Settlement) (players : List Player) : Nat :=
  tally ((account.refunds.filter fun r => decide (∀ p ∈ players, p.id ≠ r.1)).map (·.2.count))

namespace Showdown

variable {judge : Judge} {s : Showdown}

/-- Some player with the id has a stack grown by all that the account says went back to the id. -/
def Repaid (before after : Showdown) (account : Settlement) (id : PlayerId) : Prop :=
  ∃ (i : Nat) (p q : Player), before.players[i]? = some p ∧ after.players[i]? = some q ∧
    p.id = id ∧ p.stack.count + account.returned id ≤ q.stack.count

theorem repaid_of_seated (someone : ∃ p ∈ s.players, p.folded = false) (fits : s.allChips ≤ cap)
    {id : PlayerId} (seated : ∃ p ∈ s.players, p.id = id) :
    Repaid s (s.settle judge).1 (s.settle judge).2 id := by
  have bound : s.players.findIdx (·.id = id) < s.players.length :=
    List.findIdx_lt_length.mpr (by simpa using seated)
  have named : s.players[s.players.findIdx (·.id = id)].id = id := by
    simpa using List.findIdx_getElem (w := bound)
  have as_many := congrArg List.length
    (map_players_settle judge (s := s) (f := Player.id) fun _ _ => rfl)
  rw [List.length_map, List.length_map] at as_many
  have here := List.getElem?_eq_getElem bound
  have there := List.getElem?_eq_getElem (as_many ▸ bound)
  have grown := settle_at_place someone fits here there
  refine ⟨_, _, _, here, there, named, ?_⟩
  have own : (s.settle judge).2.returned id ≤ tally (((s.refunds judge).filter fun r =>
      s.players.findIdx (·.id = r.1) = s.players.findIdx (·.id = id)).map (·.2.count)) := by
    rw [Settlement.returned, refunds_settle someone, tally_filter, tally_filter]
    refine tally_le_tally fun r _ => ?_
    by_cases same : r.1 = id
    · simp [same]
    · simp [same]
  rw [grown]
  omega

theorem lost_credits :
    tally (((s.credits judge).filter fun c => !decide (c.position < s.players.length)).map
      (·.amount.count)) =
    tally (((s.refunds judge).filter fun r => decide (∀ p ∈ s.players, p.id ≠ r.1)).map
      (·.2.count)) := by
  have paid_inside : (s.payments judge).filter
      ((fun c : Credit => !decide (c.position < s.players.length)) ∘
        fun p : Payment => ⟨p.position, p.award.amount⟩) = [] := by
    refine List.filter_eq_nil_iff.mpr fun payment paid => ?_
    simpa using position_lt_of_mem_payments paid
  rw [credits, List.filter_append, List.filter_map, List.filter_map, paid_inside, List.map_nil,
    List.append_nil, List.map_map]
  have absent : ∀ r : PlayerId × Chips,
      ((fun c : Credit => !decide (c.position < s.players.length)) ∘
        fun r : PlayerId × Chips => ⟨s.players.findIdx (·.id = r.1), r.2⟩) r =
      decide (∀ p ∈ s.players, p.id ≠ r.1) := by
    intro r
    rw [Function.comp_apply, Bool.eq_iff_iff]
    simp [List.findIdx_lt_length]
  rw [List.filter_congr fun r _ => absent r]
  rfl

/-- Each refund of a seated player is paid, so all of them are as soon as every filled side pot of a
single player names a seated one, and only then. The chips of the others leave the table. -/
theorem refunds_repaid_iff_seated (judge : Judge) (s : Showdown)
    (someone : ∃ p ∈ s.players, p.folded = false) (fits : s.allChips ≤ cap) :
    let after := (s.settle judge).1
    let account := (s.settle judge).2
    (∀ r ∈ account.refunds, (∃ p ∈ s.players, p.id = r.1) → Repaid s after account r.1) ∧
    ((∀ r ∈ account.refunds, Repaid s after account r.1) ↔
      ∀ side ∈ s.sidePots, side.amount ≠ 0 → ∀ id, side.players = [id] →
        ∃ p ∈ s.players, p.id = id) ∧
    held after.players + account.lost s.players = held s.players + s.atStake.count := by
  intro after account
  have back : account.refunds = s.refunds judge := refunds_settle someone
  refine ⟨fun r _ seated => repaid_of_seated someone fits seated, ⟨?_, ?_⟩, ?_⟩
  · intro repaid side listed filled id alone
    by_contra absent
    have idle : id ∉ s.active judge := by
      intro active
      obtain ⟨p, member, -, same⟩ := mem_active.mp active
      exact absent ⟨p, member, same⟩
    have refunded : (id, side.amount) ∈ account.refunds := by
      rw [back]
      exact mem_refunds.mpr ⟨side, listed, alone, rfl, filled, idle⟩
    obtain ⟨i, p, -, here, -, same, -⟩ := repaid _ refunded
    exact absent ⟨p, List.mem_of_getElem? here, same⟩
  · intro seated r refunded
    rw [back] at refunded
    obtain ⟨side, listed, alone, amount, filled, -⟩ := mem_refunds.mp refunded
    exact repaid_of_seated someone fits (seated side listed (amount ▸ filled) r.1 alone)
  · have credited := tally_amount_credits judge someone fits
    have stake := count_atStake fits
    have players : after.players = creditAll s.players (s.credits judge) := by
      rw [show after = (s.settle judge).1 from rfl, settle_of_someone someone]
    rw [players, Settlement.lost, back, ← lost_credits, held_creditAll_add_lost, credited]
    rw [credited, stake]
    exact fits

/-- Player 99 has left the table and is alone in the upper layer. -/
def absentOverbet : Showdown where
  players := [.seated 1 (.ofNat 100)]
  sidePots := [⟨.ofNat 10, [1], ∅⟩, ⟨.ofNat 5, [99], ∅⟩]

theorem refunds_repaid_iff_seated_absentOverbet :
    (∃ p ∈ absentOverbet.players, p.folded = false) ∧ absentOverbet.allChips ≤ cap ∧
      ¬ (∀ r ∈ (absentOverbet.settle Hand.judge).2.refunds,
        Repaid absentOverbet (absentOverbet.settle Hand.judge).1
          (absentOverbet.settle Hand.judge).2 r.1) ∧
      held (absentOverbet.settle Hand.judge).1.players + 5 = 115 := by
  have someone : ∃ p ∈ absentOverbet.players, p.folded = false := by decide
  have fits : absentOverbet.allChips ≤ cap := by decide
  obtain ⟨-, all_repaid, balance⟩ :=
    refunds_repaid_iff_seated Hand.judge absentOverbet someone fits
  refine ⟨someone, fits, fun repaid => ?_, balance⟩
  obtain ⟨p, member, same⟩ := all_repaid.mp repaid ⟨.ofNat 5, [99], ∅⟩
    (by simp [absentOverbet]) (by decide) 99 rfl
  obtain rfl := List.mem_singleton.mp member
  exact absurd same (by decide)

/-- The refund of an absent player is recorded, and nobody gets the chips. -/
theorem absentOverbet_loses_refund :
    (∃ p ∈ absentOverbet.players, p.folded = false) ∧ absentOverbet.allChips ≤ cap ∧
      (absentOverbet.settle Hand.judge).2.refunds = [(99, .ofNat 5)] ∧
      (∀ p ∈ (absentOverbet.settle Hand.judge).1.players, p.id ≠ 99) ∧
      (absentOverbet.settle Hand.judge).1.players.map (·.stack.count) = [110] ∧
      (absentOverbet.settle Hand.judge).1.atStake = 0 := by
  decide

end Showdown

end CardRoom
