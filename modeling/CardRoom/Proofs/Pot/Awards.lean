import Mathlib
import CardRoom.Proofs.Pot.Growth

/-! # Awards go to the best hands

The awards of a pot are told from the players alone: those in play who are on its list and whom
nobody on it beats share it in the order of seating, and the first of them takes what equal
shares leave over. The places by which the showdown pays and the order of the list do not matter.
-/

namespace CardRoom

/-! ## The part of one pot -/

/-- What belongs to index `k` in a list put together by index is what entry `k` brings. -/
theorem filter_flatMap_zipIdx {α β : Type} {f : α → Nat → List β} {index : β → Nat}
    (indexed : ∀ x i, ∀ y ∈ f x i, index y = i) (xs : List α) (k : Nat) :
    ((xs.zipIdx.flatMap fun (x, i) => f x i).filter fun y => decide (index y = k)) =
      (xs[k]?.map (f · k)).getD [] := by
  -- From the right, since an entry put at the end leaves the indices of the others alone.
  induction xs using List.reverseRecOn with
  | nil => rfl
  | append_singleton xs x ih =>
      rw [List.zipIdx_append, List.flatMap_append, List.filter_append, ih]
      simp only [List.zipIdx_singleton, List.flatMap_cons, List.flatMap_nil, List.append_nil,
        Nat.zero_add]
      by_cases own : xs.length = k
      · have last : (f x xs.length).filter (fun y => decide (index y = k)) = f x k := by
          rw [own]
          exact List.filter_eq_self.mpr fun y member => decide_eq_true (indexed x k y member)
        rw [last, List.getElem?_eq_none (Nat.le_of_eq own), List.getElem?_append_right
          (Nat.le_of_eq own), own]
        simp
      · have last : (f x xs.length).filter (fun y => decide (index y = k)) = [] :=
          List.filter_eq_nil_iff.mpr fun y member same => own
            ((indexed x xs.length y member).symm.trans (of_decide_eq_true same))
        rw [last, List.append_nil]
        rcases Nat.lt_or_gt_of_ne own with beyond | within
        · rw [List.getElem?_eq_none (Nat.le_of_lt beyond), List.getElem?_eq_none]
          simpa using beyond
        · rw [List.getElem?_append_left within]

theorem mapIdx_map {α β γ : Type} (f : Nat → β → γ) (g : α → β) (xs : List α) :
    (xs.map g).mapIdx f = xs.mapIdx fun n x => f n (g x) := by
  apply List.ext_getElem?
  intro n
  rw [List.getElem?_mapIdx, List.getElem?_mapIdx, List.getElem?_map, Option.map_map]
  rfl

namespace Pot

variable {contenders : List Contender} {pot : Pot} {k : Nat}

theorem winners_eq_filter : pot.winners contenders = contenders.filter fun c =>
    decide (c.playerId ∈ pot.eligible ∧
      ∀ d ∈ contenders, d.playerId ∈ pot.eligible → d.score ≤ c.score) := by
  have top : ∀ c ∈ contenders, c ∈ pot.winners contenders ↔ c.playerId ∈ pot.eligible ∧
      ∀ d ∈ contenders, d.playerId ∈ pot.eligible → d.score ≤ c.score :=
    fun c member => mem_winners.trans (and_iff_right member)
  simp only [winners, List.filter_filter, List.mem_filter] at top ⊢
  apply List.filter_congr
  intro c member
  have same := top c member
  simp only [member, true_and] at same
  rw [Bool.eq_iff_iff, same, decide_eq_true_iff]

/-- Who wins and with what score is told from the ids and scores of the contenders alone. -/
theorem map_winners_eq_filter :
    (pot.winners contenders).map (fun c => (c.playerId, c.score)) =
      (contenders.map fun c => (c.playerId, c.score)).filter fun view =>
        decide (view.1 ∈ pot.eligible ∧
          ∀ other ∈ contenders.map (fun c => (c.playerId, c.score)),
            other.1 ∈ pot.eligible → other.2 ≤ view.2) := by
  rw [winners_eq_filter, List.filter_map]
  simp only [List.forall_mem_map, Function.comp_def]

/-- A winner's part of an amount among so many winners. -/
def part (amount winners place : Nat) : Nat :=
  if place = 0 then amount / winners + amount % winners else amount / winners

theorem map_payments (contenders : List Contender) (k : Nat) (filled : pot.amount ≠ 0) :
    (pot.payments contenders k).map (fun payment =>
        (payment.award.playerId, payment.award.amount.count, payment.award.score)) =
      ((pot.winners contenders).map fun c => (c.playerId, c.score)).mapIdx fun n w =>
        (w.1, part pot.amount.count (pot.winners contenders).length n, w.2) := by
  rw [payments, if_neg filled]
  apply List.ext_getElem?
  intro n
  rw [List.getElem?_map, List.getElem?_mapIdx, List.getElem?_mapIdx, List.getElem?_map]
  cases here : (pot.winners contenders)[n]? with
  | none => rfl
  | some w =>
      have some_winner : (pot.winners contenders).length ≠ 0 := by
        have bound := (List.getElem?_eq_some_iff.mp here).1
        omega
      have parts := Nat.div_add_mod' pot.amount.count (pot.winners contenders).length
      have share_le := Nat.le_mul_of_pos_right (pot.amount.count / (pot.winners contenders).length)
        (Nat.pos_of_ne_zero some_winner)
      have bound := pot.amount.le_cap
      by_cases first : n = 0
      · simp [part, first, Chips.split, some_winner]
        omega
      · simp [part, first, Chips.split, some_winner]

end Pot

namespace Showdown

variable {judge : Judge} {s : Showdown} {pot : Pot} {k : Nat}

/-! ## The best of the players on a list -/

/-- The players in play who are on the list of a pot, in the order of seating. -/
def rivals (s : Showdown) (pot : Pot) : List Player :=
  s.inPlay.filter fun p => decide (p.id ∈ pot.eligible)

theorem mem_rivals : p ∈ s.rivals pot ↔ p ∈ s.inPlay ∧ p.id ∈ pot.eligible := by
  rw [rivals, List.mem_filter, decide_eq_true_eq]

/-- The rivals whom no rival beats. -/
def topRivals (judge : Judge) (s : Showdown) (pot : Pot) : List Player :=
  (s.rivals pot).filter fun p =>
    decide (∀ q ∈ s.rivals pot, q.score judge s.board ≤ p.score judge s.board)

/-- The winners of a pot are its top rivals. -/
theorem map_winners (judge : Judge) (s : Showdown) (pot : Pot) :
    (pot.winners (s.contenders judge)).map (fun c => (c.playerId, c.score)) =
      (s.topRivals judge pot).map fun p => (p.id, p.score judge s.board) := by
  rw [Pot.map_winners_eq_filter, map_contenders Prod.mk, List.filter_map, topRivals, rivals,
    List.filter_filter]
  refine congrArg _ (List.filter_congr fun p _ => ?_)
  simp only [Function.comp_apply, List.forall_mem_map, List.mem_filter, decide_eq_true_eq, and_imp,
    Bool.decide_and, Bool.and_comm]

/-! ## The awards of one pot -/

theorem awards_of_pot (judge : Judge) (someone : ∃ p ∈ s.players, p.folded = false)
    (here : (Pot.resolve (s.active judge) (s.pots (s.active judge)))[k]? = some pot) :
    (s.settle judge).2.awards.filter (·.potIndex = k) =
      (pot.payments (s.contenders judge) k).map Payment.award := by
  have indexed : ∀ (pot : Pot) i, ∀ payment ∈ pot.payments (s.contenders judge) i,
      payment.award.potIndex = i := by
    intro pot i payment paid
    obtain ⟨-, -, -, -, index, -⟩ := Pot.exists_winner_of_mem_payments paid
    exact index
  have own := filter_flatMap_zipIdx indexed
    (Pot.resolve (s.active judge) (s.pots (s.active judge))) k
  rw [here, Option.map_some, Option.getD_some] at own
  rw [settle_of_someone someone, List.filter_map, payments]
  exact congrArg _ own

theorem potIndex_lt_length {award : Award} (someone : ∃ p ∈ s.players, p.folded = false)
    (given : award ∈ (s.settle judge).2.awards) :
    award.potIndex < (Pot.resolve (s.active judge) (s.pots (s.active judge))).length := by
  rw [settle_of_someone someone] at given
  obtain ⟨payment, paid, rfl⟩ := List.mem_map.mp given
  obtain ⟨⟨pot, i⟩, listed, paid⟩ := List.mem_flatMap.mp paid
  obtain ⟨-, -, -, -, index, -⟩ := Pot.exists_winner_of_mem_payments paid
  rw [index]
  exact (List.mem_zipIdx' listed).1

/-- Each pot with chips in it has rivals and is shared, in the order of seating, by those of them
whom none beats; the first takes what equal shares leave over. An empty pot is not awarded. The
stack of a player who has folded grows by refunds only, and cards that cannot be judged score
zero. -/
theorem awards_go_to_top_rivals (judge : Judge) (s : Showdown)
    (someone : ∃ p ∈ s.players, p.folded = false) (fits : s.allChips ≤ cap) :
    let active := s.inPlay.map Player.id
    let pots := Pot.resolve active (s.pots active)
    let after := (s.settle judge).1
    let account := (s.settle judge).2
    (∀ (k : Nat) (pot : Pot), pots[k]? = some pot →
      let awards := account.awards.filter (·.potIndex = k)
      (pot.amount = 0 → awards = []) ∧
      (pot.amount ≠ 0 → s.topRivals judge pot ≠ [] ∧
        awards.map (fun a => (a.playerId, a.amount.count, a.score)) =
          (s.topRivals judge pot).mapIdx fun n p =>
            (p.id, Pot.part pot.amount.count (s.topRivals judge pot).length n,
              p.score judge s.board))) ∧
    (∀ award ∈ account.awards, award.potIndex < pots.length) ∧
    (∀ (i : Nat) (p q : Player), s.players[i]? = some p → after.players[i]? = some q →
      p.folded = true → q.stack.count = p.stack.count +
        tally ((account.refunds.filter fun r => s.players.findIdx (·.id = r.1) = i).map
          (·.2.count))) ∧
    (∀ (p : Player) error, judge (p.cards s.board) = .error error → p.score judge s.board = 0) := by
  intro active pots after account
  have same : s.active judge = active := active_eq
  refine ⟨fun k pot here => ?_, fun award given => ?_, fun i p q here there folded => ?_, ?_⟩
  · have within := total_pots_le active fits
    have settled := Pot.settled_of_mem_resolve (same ▸ active_ne_nil judge someone) within
      (List.mem_of_getElem? here)
    have awarded := awards_of_pot judge someone (by rw [same]; exact here)
    constructor
    · intro empty
      rw [awarded, Pot.payments_of_empty empty, List.map_nil]
    · intro filled
      have views := map_winners judge s pot
      have as_many := congrArg List.length views
      rw [List.length_map, List.length_map] at as_many
      constructor
      · rw [← List.length_pos_iff, ← as_many, List.length_pos_iff]
        refine Pot.winners_ne_nil ?_
        change pot.isContested (s.active judge) = true
        rw [same]
        exact settled.resolve_left filled
      · have shares := Pot.map_payments (s.contenders judge) k filled
        rw [views, as_many, mapIdx_map] at shares
        rw [awarded, List.map_map]
        exact shares
  · have bound := potIndex_lt_length someone given
    rwa [same] at bound
  · have grown := settle_at_place someone fits here there
    have back : account.refunds = s.refunds judge := refunds_settle someone
    rw [grown, payments_at_folded here folded, back]
    rfl
  · intro p error refused
    rw [Player.score, refused]

/-- Players 3 and 1 share an odd pot with a pair of aces each, and player 2 wins a pot that has
taken over a stranded one. -/
def sharedAces : Showdown where
  players := [{ Player.seated 5 (.ofNat 9) with folded := true },
    { Player.seated 3 (.ofNat 40) with holeCards := some [.ofRankSuit 12 0, .ofRankSuit 3 1] },
    { Player.seated 1 (.ofNat 20) with holeCards := some [.ofRankSuit 12 1, .ofRankSuit 3 0] },
    { Player.seated 2 (.ofNat 20) with holeCards := some [.ofRankSuit 11 1, .ofRankSuit 3 2] }]
  sidePots := [⟨.ofNat 11, [1, 2, 3, 5], ∅⟩, ⟨.ofNat 6, [2, 5], ∅⟩, ⟨.ofNat 4, [6, 5], ∅⟩]
  board := [.ofRankSuit 12 2, .ofRankSuit 7 2, .ofRankSuit 5 3]

theorem awards_go_to_top_rivals_sharedAces :
    (∃ p ∈ sharedAces.players, p.folded = false) ∧ sharedAces.allChips ≤ cap ∧
      ((sharedAces.settle Hand.judge).2.awards.filter (·.potIndex = 0)).map
          (fun a => (a.playerId, a.amount.count, a.score)) =
        [(3, 6, ⟨1391670⟩), (1, 5, ⟨1391670⟩)] ∧
      ((sharedAces.settle Hand.judge).2.awards.filter (·.potIndex = 1)).map
          (fun a => (a.playerId, a.amount.count, a.score)) = [(2, 10, ⟨646278⟩)] ∧
      (sharedAces.settle Hand.judge).2.awards.filter (·.potIndex = 2) = [] := by
  have someone : ∃ p ∈ sharedAces.players, p.folded = false := by decide
  have fits : sharedAces.allChips ≤ cap := by decide
  obtain ⟨each, -⟩ := awards_go_to_top_rivals Hand.judge sharedAces someone fits
  refine ⟨someone, fits, ?_, ?_, ?_⟩
  · exact ((each 0 ⟨.ofNat 11, [1, 2, 3, 5]⟩ (by decide)).2 (by decide)).2.trans (by cbv)
  · exact ((each 1 ⟨.ofNat 10, [2, 5]⟩ (by decide)).2 (by decide)).2.trans (by cbv)
  · exact (each 2 ⟨.ofNat 0, [6, 5]⟩ (by decide)).1 (by decide)

end Showdown

end CardRoom
