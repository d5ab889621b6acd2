import Mathlib
import CardRoom.Proofs.Pot.Account

/-! # What a showdown adds to each stack

A credit raises the stack at its place and changes nothing else. Within the cap a player's stack
therefore grows by exactly the refunds and payments to his place, and when no id is given twice
those are the ones that the account records for his id.
-/

namespace CardRoom

variable {i : Nat} {p q : Player}

theorem getElem?_creditAll (players : List Player) (credits : List Credit) (i : Nat) :
    (creditAll players credits)[i]? = players[i]?.map fun p =>
      { p with
        stack := ((credits.filter (·.position = i)).map Credit.amount).foldl (· + ·) p.stack } := by
  induction credits generalizing players with
  | nil => simp [creditAll]
  | cons c credits ih =>
      rw [creditAll, List.foldl_cons, ← creditAll, ih, List.getElem?_modify]
      cases players[i]? with
      | none => rfl
      | some p => by_cases own : c.position = i <;> simp [own, Player.receive]

namespace Settlement

/-- What the account says went back to a player, never cut off. -/
def returned (account : Settlement) (id : PlayerId) : Nat :=
  tally ((account.refunds.filter (·.1 = id)).map (·.2.count))

end Settlement

namespace Showdown

variable {judge : Judge} {s : Showdown}

/-! ## Players in play -/

/-- The players who have not folded, in the order of seating. -/
def inPlay (s : Showdown) : List Player := s.players.filter (!·.folded)

theorem mem_inPlay : p ∈ s.inPlay ↔ p ∈ s.players ∧ p.folded = false := by
  simp [inPlay]

/-- What a showdown looks at in a contender does not depend on the place. -/
theorem map_contenders {β : Type} (f : PlayerId → Score → β) :
    (s.contenders judge).map (fun c => f c.playerId c.score) =
      s.inPlay.map fun p => f p.id (p.score judge s.board) := by
  have placeless : s.inPlay.map (fun p => f p.id (p.score judge s.board)) =
      s.players.filterMap fun p =>
        if p.folded then none else some (f p.id (p.score judge s.board)) := by
    rw [inPlay]
    induction s.players with
    | nil => rfl
    | cons p ps ih => cases folded : p.folded <;> simp [folded, ih]
  rw [placeless, contenders, List.map_filterMap]
  conv_rhs => rw [← List.zipIdx_map_fst 0 s.players, List.filterMap_map]
  congr
  funext entry
  simp only [Function.comp_apply]
  split <;> simp [*]

theorem active_eq : s.active judge = s.inPlay.map Player.id :=
  map_contenders fun id _ => id

theorem active_congr (judge better : Judge) (s : Showdown) : s.active judge = s.active better :=
  active_eq.trans active_eq.symm

/-! ## Growth by place -/

/-- A stack grows by the refunds and the payments to its place, up to the cap. -/
theorem exists_settled_at_place (judge : Judge) (someone : ∃ p ∈ s.players, p.folded = false)
    (here : s.players[i]? = some p) :
    ∃ q, (s.settle judge).1.players[i]? = some q ∧ q.stack.count = min (p.stack.count +
      tally (((s.refunds judge).filter fun r => s.players.findIdx (·.id = r.1) = i).map
        (·.2.count)) +
      tally (((s.payments judge).filter (·.position = i)).map (·.award.amount.count))) cap := by
  rw [settle_of_someone someone, getElem?_creditAll, here]
  refine ⟨_, rfl, ?_⟩
  rw [Chips.count_foldl_add, credits, List.filter_append, List.filter_map, List.filter_map,
    List.map_append, List.map_append, tally_append, List.map_map, List.map_map, List.map_map,
    List.map_map, ← Nat.add_assoc]
  rfl

/-- Within the cap a stack grows by the refunds and the payments to its place. -/
theorem settle_at_place (someone : ∃ p ∈ s.players, p.folded = false) (fits : s.allChips ≤ cap)
    (here : s.players[i]? = some p) (there : (s.settle judge).1.players[i]? = some q) :
    q.stack.count = p.stack.count +
      tally (((s.refunds judge).filter fun r => s.players.findIdx (·.id = r.1) = i).map
        (·.2.count)) +
      tally (((s.payments judge).filter (·.position = i)).map (·.award.amount.count)) := by
  have credited := tally_credits judge someone fits
  have stake := count_atStake fits
  have own : p.stack.count ≤ held s.players :=
    le_tally (List.mem_map_of_mem (List.mem_of_getElem? here))
  have refunded := tally_filter_le (fun r => decide (s.players.findIdx (·.id = r.1) = i))
    (·.2.count) (s.refunds judge)
  have paid := tally_filter_le (fun p : Payment => decide (p.position = i))
    (·.award.amount.count) (s.payments judge)
  obtain ⟨r, also_there, grown⟩ := exists_settled_at_place judge someone here
  obtain rfl := Option.some.inj (there.symm.trans also_there)
  rw [grown]
  simp only [allChips] at *
  omega

theorem payments_at_folded (here : s.players[i]? = some p) (folded : p.folded = true) :
    ((s.payments judge).filter fun payment => decide (payment.position = i)) = [] := by
  apply List.filter_eq_nil_iff.mpr
  intro payment paid own
  obtain ⟨q, there, active, -⟩ := exists_player_of_mem_payments paid
  rw [of_decide_eq_true own] at there
  obtain rfl := Option.some.inj (here.symm.trans there)
  rw [folded] at active
  cases active

/-! ## Growth by id -/

section

variable (distinct : (s.players.map Player.id).Nodup) (here : s.players[i]? = some p)
include distinct here

theorem place_unique {j : Nat} (there : s.players[j]? = some q) (same : q.id = p.id) : j = i := by
  have bound := (List.getElem?_eq_some_iff.mp there).1
  refine (List.getElem?_inj (by simpa using bound) distinct).mp ?_
  rw [List.getElem?_map, List.getElem?_map, there, here, Option.map_some, Option.map_some, same]

theorem refunds_at_place (refunds : List (PlayerId × Chips)) :
    (refunds.filter fun r => decide (s.players.findIdx (·.id = r.1) = i)) =
      refunds.filter (·.1 = p.id) := by
  obtain ⟨bound, found⟩ := List.getElem?_eq_some_iff.mp here
  apply List.filter_congr
  intro r _
  rw [decide_eq_decide, List.findIdx_eq bound, decide_eq_true_eq, found]
  constructor
  · exact fun first => first.1.symm
  -- A place before this one with the same id would be a second one.
  · intro same
    refine ⟨same.symm, fun j earlier => decide_eq_false fun also => ?_⟩
    have there := List.getElem?_eq_getElem (earlier.trans bound)
    exact Nat.ne_of_lt earlier (place_unique distinct here there (also.trans same))

theorem payments_at_place :
    ((s.payments judge).filter fun payment => decide (payment.position = i)) =
      (s.payments judge).filter (·.award.playerId = p.id) := by
  apply List.filter_congr
  intro payment paid
  obtain ⟨q, there, -, named⟩ := exists_player_of_mem_payments paid
  rw [decide_eq_decide, named]
  constructor
  · rintro rfl
    rw [Option.some.inj (there.symm.trans here)]
  · exact place_unique distinct here there

end

theorem count_winnings_of_fits (judge : Judge) (someone : ∃ p ∈ s.players, p.folded = false)
    (fits : s.allChips ≤ cap) (id : PlayerId) :
    ((s.settle judge).2.winnings id).count = Pot.wonBy (s.payments judge) id := by
  have credited := tally_credits judge someone fits
  have bound := s.atStake.le_cap
  have won : Pot.wonBy (s.payments judge) id ≤ _ := tally_filter_le _ _ _
  rw [count_winnings someone]
  omega

theorem map_players_settle (judge : Judge) {β : Type} {f : Player → β}
    (stackless : ∀ p stack, f { p with stack := stack } = f p) :
    (s.settle judge).1.players.map f = s.players.map f := by
  by_cases someone : ∃ p ∈ s.players, p.folded = false
  · rw [settle_of_someone someone]
    apply List.ext_getElem?
    intro i
    rw [List.getElem?_map, List.getElem?_map, getElem?_creditAll, Option.map_map]
    exact congrArg (Option.map · _) (funext fun p => stackless p _)
  · rw [settle_of_nobody (by simpa using someone)]

/-- When no id is given twice, a stack grows by what the account says the player won and got
back, players who have folded win nothing, each player in play is scored once in the order of
seating, and a showdown changes nothing else about the players and the board. -/
theorem account_explains_stacks (judge : Judge) (s : Showdown)
    (distinct : (s.players.map Player.id).Nodup) (someone : ∃ p ∈ s.players, p.folded = false)
    (fits : s.allChips ≤ cap) :
    let after := (s.settle judge).1
    let account := (s.settle judge).2
    (∀ (i : Nat) (p q : Player), s.players[i]? = some p → after.players[i]? = some q →
      q.stack.count = p.stack.count + (account.winnings p.id).count + account.returned p.id ∧
      (p.folded = true → (account.winnings p.id).count = 0)) ∧
    account.scores = s.inPlay.map (fun p => (p.id, p.score judge s.board)) ∧
    after.players.map (fun p => (p.id, p.folded, p.holeCards)) =
      s.players.map (fun p => (p.id, p.folded, p.holeCards)) ∧
    after.board = s.board := by
  refine ⟨fun i p q here there => ?_, ?_, map_players_settle judge fun _ _ => rfl, ?_⟩
  · have won := count_winnings_of_fits judge someone fits p.id
    constructor
    · have grown := settle_at_place someone fits here there
      rw [refunds_at_place distinct here, payments_at_place distinct here] at grown
      rw [grown, won, Settlement.returned, refunds_settle someone, Pot.wonBy]
      omega
    · intro folded
      rw [won, Pot.wonBy, ← payments_at_place distinct here, payments_at_folded here folded]
      rfl
  · rw [settle_of_someone someone]
    exact map_contenders fun id score => (id, score)
  · rw [settle_of_someone someone]

/-- Two players share an odd pot and a plain one, a folded player gets an uncalled layer back, and
one side pot lists a player who is not seated. -/
def oddTable : Showdown where
  players := [.seated 1 (.ofNat 40), { Player.seated 2 (.ofNat 30) with folded := true },
    .seated 3 (.ofNat 20)]
  pot := .ofNat 2
  sidePots := [⟨.ofNat 11, [3, 2, 1], ∅⟩, ⟨.ofNat 5, [2], ∅⟩, ⟨.ofNat 4, [3], ∅⟩,
    ⟨.ofNat 3, [9], ∅⟩]

theorem account_explains_stacks_oddTable :
    (oddTable.players.map Player.id).Nodup ∧ (∃ p ∈ oddTable.players, p.folded = false) ∧
      oddTable.allChips ≤ cap ∧
      (∃ q, (oddTable.settle Hand.judge).1.players[0]? = some q ∧ q.stack.count = 47) ∧
      (∃ q, (oddTable.settle Hand.judge).1.players[1]? = some q ∧ q.stack.count = 35) ∧
      (oddTable.settle Hand.judge).2.scores = [(1, 0), (3, 0)] := by
  have distinct : (oddTable.players.map Player.id).Nodup := by decide
  have someone : ∃ p ∈ oddTable.players, p.folded = false := by decide
  have fits : oddTable.allChips ≤ cap := by decide
  obtain ⟨grown, scored, -⟩ := account_explains_stacks Hand.judge oddTable distinct someone fits
  obtain ⟨first, at_first⟩ : ∃ q, (oddTable.settle Hand.judge).1.players[0]? = some q :=
    Option.isSome_iff_exists.mp (by decide)
  obtain ⟨second, at_second⟩ : ∃ q, (oddTable.settle Hand.judge).1.players[1]? = some q :=
    Option.isSome_iff_exists.mp (by decide)
  refine ⟨distinct, someone, fits, ⟨first, at_first, ?_⟩, ⟨second, at_second, ?_⟩, ?_⟩
  · rw [(grown 0 _ first rfl at_first).1]
    decide
  · rw [(grown 1 _ second rfl at_second).1]
    decide
  · rw [scored]
    decide

end Showdown

end CardRoom
