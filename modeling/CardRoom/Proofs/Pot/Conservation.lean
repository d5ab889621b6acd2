import Mathlib
import CardRoom.Proofs.Pot.Account

/-! # A showdown conserves chips

All chips at stake end in stacks, as awards or as refunds. Afterwards nothing is at stake, so
settling once more does nothing.
-/

namespace CardRoom.Showdown

variable {judge : Judge} {s : Showdown}

theorem position_lt_of_mem_credits
    (seated : ∀ side ∈ s.sidePots, ∀ id, side.players = [id] → ∃ p ∈ s.players, p.id = id)
    {credit : Credit} (member : credit ∈ s.credits judge) : credit.position < s.players.length := by
  rcases List.mem_append.mp member with refunded | paid_out
  · obtain ⟨refund, back, rfl⟩ := List.mem_map.mp refunded
    obtain ⟨side, listed, alone, -⟩ := mem_refunds.mp back
    obtain ⟨p, present, same⟩ := seated side listed refund.1 alone
    exact List.findIdx_lt_length.mpr ⟨p, present, by simpa using same⟩
  · obtain ⟨payment, paid, rfl⟩ := List.mem_map.mp paid_out
    exact position_lt_of_mem_payments paid

theorem tally_amount_credits (judge : Judge) (someone : ∃ p ∈ s.players, p.folded = false)
    (fits : s.allChips ≤ cap) :
    tally ((s.credits judge).map (·.amount.count)) = s.atStake.count := by
  rw [← tally_credits judge someone fits, credits, List.map_append, tally_append, List.map_map,
    List.map_map]
  rfl

theorem settle_of_cleared (no_pot : s.pot = 0) (no_sides : s.sidePots = []) :
    (s.settle judge).1 = s ∧ (s.settle judge).2.awards = [] ∧ (s.settle judge).2.refunds = [] := by
  by_cases someone : ∃ p ∈ s.players, p.folded = false
  · have nothing : Pot.total (s.pots (s.active judge)) = 0 := by
      rw [total_pots, no_pot, no_sides]
      rfl
    have no_refunds : s.refunds judge = [] := by
      apply List.eq_nil_iff_forall_not_mem.mpr
      intro refund back
      obtain ⟨p, member, found⟩ := List.mem_filterMap.mp back
      obtain ⟨-, -, filled, -⟩ := Pot.refund?_eq_some.mp found
      have bound := Pot.amount_le_total member
      exact filled (Chips.count_eq_zero.mp (by omega))
    have no_payments : s.payments judge = [] := by
      have resolved := Pot.total_resolve (active_ne_nil judge someone)
        (nothing.le.trans (Nat.zero_le cap))
      apply List.flatMap_eq_nil_iff.mpr
      intro entry member
      have bound := Pot.amount_le_total (List.fst_mem_of_mem_zipIdx member)
      exact Pot.payments_of_empty (Chips.count_eq_zero.mp (by omega))
    rw [settle_of_someone someone]
    simp only [credits, no_refunds, no_payments, List.map_nil, List.append_nil, creditAll,
      List.foldl_nil, and_self, and_true]
    rw [← no_pot, ← no_sides]
  · have nobody : ∀ p ∈ s.players, p.folded = true := by simpa using someone
    rw [settle_of_nobody nobody]
    exact ⟨rfl, rfl, rfl⟩

/-- With somebody active, if all chips fit a record and a side pot of a single player names
a seated one, the stacks grow by the chips at stake, which are the awards and the refunds, and
nothing is left to settle again. With nobody active, nothing happens. -/
theorem settle_conserves_chips (judge : Judge) (s : Showdown) :
    ((∃ p ∈ s.players, p.folded = false) → s.allChips ≤ cap →
      (∀ side ∈ s.sidePots, ∀ id, side.players = [id] → ∃ p ∈ s.players, p.id = id) →
      let after := (s.settle judge).1
      let account := (s.settle judge).2
      held after.players = held s.players + s.atStake.count ∧
        account.awarded + account.refunded = s.atStake ∧
        after.pot = 0 ∧ after.sidePots = [] ∧
        ∀ again : Judge, (after.settle again).1 = after ∧
          (after.settle again).2.awards = [] ∧ (after.settle again).2.refunds = []) ∧
    ((∀ p ∈ s.players, p.folded = true) → s.settle judge = (s, {})) := by
  refine ⟨fun someone fits seated => ?_, settle_of_nobody⟩
  have stake := count_atStake fits
  have parts := tally_credits judge someone fits
  have credited := tally_amount_credits judge someone fits
  rw [settle_of_someone someone]
  refine ⟨?_, ?_, rfl, rfl, fun again => settle_of_cleared rfl rfl⟩
  · rw [held_creditAll (fun _ => position_lt_of_mem_credits seated), credited]
    rw [credited, stake]
    exact fits
  · have awarded := Chips.count_sum (((s.payments judge).map Payment.award).map Award.amount)
    have refunded := Chips.count_sum ((s.refunds judge).map Prod.snd)
    have bound := s.atStake.le_cap
    simp only [List.map_map, Function.comp_def] at awarded refunded
    apply Chips.ext
    simp only [Settlement.awarded, Settlement.refunded, Chips.count_add, List.map_map,
      Function.comp_def]
    omega

/-- A table with a plain pot beside side pots: one is contested, one lists folded players only,
and one goes back to the folded player who made it. -/
def foldedOverbet : Showdown where
  players :=
    [.seated 1 (.ofNat 40), { Player.seated 2 (.ofNat 30) with folded := true },
      { Player.seated 3 (.ofNat 20) with folded := true }]
  pot := .ofNat 7
  sidePots := [⟨.ofNat 10, [1, 2], ∅⟩, ⟨.ofNat 6, [2, 3], ∅⟩, ⟨.ofNat 5, [3], ∅⟩]

theorem settle_conserves_chips_foldedOverbet :
    (∃ p ∈ foldedOverbet.players, p.folded = false) ∧ foldedOverbet.allChips ≤ cap ∧
      (∀ side ∈ foldedOverbet.sidePots, ∀ id, side.players = [id] →
        ∃ p ∈ foldedOverbet.players, p.id = id) ∧
      held (foldedOverbet.settle Hand.judge).1.players = 118 ∧
      ((foldedOverbet.settle Hand.judge).2.awarded +
        (foldedOverbet.settle Hand.judge).2.refunded).count = 28 := by
  have someone : ∃ p ∈ foldedOverbet.players, p.folded = false := by decide
  have fits : foldedOverbet.allChips ≤ cap := by decide
  have seated : ∀ side ∈ foldedOverbet.sidePots, ∀ id, side.players = [id] →
      ∃ p ∈ foldedOverbet.players, p.id = id := by
    simp [foldedOverbet, Player.seated]
  obtain ⟨grown, accounted, -⟩ :=
    (settle_conserves_chips Hand.judge foldedOverbet).1 someone fits seated
  exact ⟨someone, fits, seated, grown, congrArg Chips.count accounted⟩

end CardRoom.Showdown
