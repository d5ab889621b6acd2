import Mathlib
import CardRoom.Proofs.Pot.Coverage

/-! # The order of contributions does not matter

Layers cut from the same contributions in another order have the same amounts, and the same players
in another order on their lists. A showdown asks of a list only who is on it, and whether a single
player is, so two tables with such pots go through the same steps and come to the same account.
-/

namespace CardRoom

/-! ## Lists related entry by entry -/

section

variable {α β : Type} {R : α → β → Prop} {xs : List α} {ys : List β}

theorem forall₂_getElem?_cases (related : List.Forall₂ R xs ys) (i : Nat) :
    (xs[i]? = none ∧ ys[i]? = none) ∨ ∃ x y, xs[i]? = some x ∧ ys[i]? = some y ∧ R x y := by
  induction related generalizing i with
  | nil => exact .inl ⟨rfl, rfl⟩
  | cons here _ ih =>
      cases i with
      | zero => exact .inr ⟨_, _, rfl, rfl, here⟩
      | succ i => exact ih i

theorem forall₂_modify (related : List.Forall₂ R xs ys) {f : α → α} {g : β → β}
    (kept : ∀ x y, R x y → R (f x) (g y)) (i : Nat) :
    List.Forall₂ R (xs.modify i f) (ys.modify i g) := by
  induction related generalizing i with
  | nil => cases i <;> exact .nil
  | cons here rest ih =>
      cases i with
      | zero => exact .cons (kept _ _ here) rest
      | succ i => exact .cons here (ih i)

theorem flatMap_zipIdx_congr {γ : Type} (related : List.Forall₂ R xs ys) {f : α × Nat → List γ}
    {g : β × Nat → List γ} (same : ∀ x y k, R x y → f (x, k) = g (y, k)) (start : Nat) :
    (xs.zipIdx start).flatMap f = (ys.zipIdx start).flatMap g := by
  induction related generalizing start with
  | nil => rfl
  | cons here _ ih =>
      rw [List.zipIdx_cons, List.zipIdx_cons, List.flatMap_cons, List.flatMap_cons, ih,
        same _ _ _ here]

end

namespace Pot

/-- Pots with the same chips, and the same players on their lists in whatever order. -/
structure Alike (p q : Pot) : Prop where
  amount : p.amount = q.amount
  eligible : p.eligible.Perm q.eligible

namespace Alike

variable {p q : Pot} (alike : Alike p q)
include alike

theorem isContested (active : List PlayerId) : p.isContested active = q.isContested active := by
  rw [Bool.eq_iff_iff, isContested_iff, isContested_iff]
  exact exists_congr fun id => and_congr_left fun _ => alike.eligible.mem_iff

theorem refund? (active : List PlayerId) : Pot.refund? active p = Pot.refund? active q := by
  ext refund
  obtain ⟨id, c⟩ := refund
  have single : p.eligible = [id] ↔ q.eligible = [id] := by
    constructor
    · exact fun alone => List.perm_singleton.mp (alone ▸ alike.eligible.symm)
    · exact fun alone => List.perm_singleton.mp (alone ▸ alike.eligible)
  rw [refund?_eq_some, refund?_eq_some, single, alike.amount]

theorem payments (contenders : List Contender) (k : Nat) :
    p.payments contenders k = q.payments contenders k := by
  have winners : p.winners contenders = q.winners contenders := by
    have listed : ∀ id, p.eligible.contains id = q.eligible.contains id := by
      intro id
      rw [List.contains_eq_mem, List.contains_eq_mem]
      exact decide_eq_decide.mpr alike.eligible.mem_iff
    simp only [Pot.winners, listed]
  rw [Pot.payments, Pot.payments, alike.amount, winners]

end Alike

variable {active : List PlayerId} {pots others : List Pot}

theorem refunds_of_alike (alike : List.Forall₂ Alike pots others) :
    refunds active pots = refunds active others := by
  induction alike with
  | nil => rfl
  | cons here _ ih =>
      simp only [refunds, List.filterMap_cons, here.refund?] at ih ⊢
      rw [ih]

theorem withoutRefunds_of_alike (active : List PlayerId)
    (alike : List.Forall₂ Alike pots others) :
    List.Forall₂ Alike (withoutRefunds active pots) (withoutRefunds active others) := by
  induction alike with
  | nil => exact .nil
  | @cons p q _ _ here _ ih =>
      refine .cons ?_ ih
      dsimp only
      rw [here.refund?]
      cases Pot.refund? active q with
      | none => exact here
      | some refund => exact ⟨rfl, here.eligible⟩

theorem heir?_of_alike (alike : List.Forall₂ Alike pots others) (k : Nat) :
    heir? active pots k = heir? active others k := by
  have contested : (fun j : Nat => pots[j]?.any (isContested active)) =
      fun j => others[j]?.any (isContested active) := by
    funext j
    rcases forall₂_getElem?_cases alike j with ⟨here, there⟩ | ⟨p, q, here, there, near⟩
    · rw [here, there]
    · rw [here, there]
      exact near.isContested active
  rw [heir?, heir?, contested, alike.length_eq]

/-- One turn in both runs: the same pot passes on the same chips to the same heir. -/
theorem passOn_of_alike (alike : List.Forall₂ Alike pots others) (k : Nat) :
    List.Forall₂ Alike (passOn active pots k) (passOn active others k) := by
  unfold passOn
  rcases forall₂_getElem?_cases alike k with ⟨here, there⟩ | ⟨p, q, here, there, own⟩
  · simp only [here, there]
    exact alike
  · simp only [here, there, own.amount, own.isContested active, heir?_of_alike alike k]
    split
    · exact alike
    · cases heir? active others k with
      | none =>
          refine forall₂_modify alike ?_ k
          exact fun _ _ near => ⟨near.amount, .refl _⟩
      | some j =>
          refine forall₂_modify (forall₂_modify alike ?_ j) ?_ k
          · exact fun _ _ near => ⟨congrArg (· + q.amount) near.amount, near.eligible⟩
          · exact fun _ _ near => ⟨rfl, near.eligible⟩

/-- All turns: the pots stay alike, for both runs take the same turns. -/
theorem resolve_of_alike (alike : List.Forall₂ Alike pots others) :
    List.Forall₂ Alike (resolve active pots) (resolve active others) := by
  rw [resolve, resolve, alike.length_eq]
  have start := withoutRefunds_of_alike active alike
  generalize List.range others.length = turns
  generalize withoutRefunds active pots = now at start
  generalize withoutRefunds active others = also at start
  induction turns generalizing now also with
  | nil => exact start
  | cons k turns ih => exact ih _ _ (passOn_of_alike start k)

end Pot

namespace SidePot

variable {first second : Contributions}

theorem between_of_perm (same : first.Perm second) (below level : Chips) :
    Pot.Alike (between first below level).asPot (between second below level).asPot := by
  have players : (between first below level).players.Perm (between second below level).players :=
    (same.filter _).map _
  exact ⟨congrArg (level - below).times players.length_eq, players⟩

theorem above_of_perm (same : first.Perm second) (below : Chips) (amounts : List Chips) :
    List.Forall₂ Pot.Alike ((above first below amounts).map asPot)
      ((above second below amounts).map asPot) := by
  induction amounts generalizing below with
  | nil => exact .nil
  | cons level rest ih =>
      unfold above
      split
      · exact ih below
      · exact .cons (between_of_perm same below level) (ih level)

/-- Layers cut from reordered contributions differ in the order of their lists only. -/
theorem layers_of_perm (same : first.Perm second) :
    List.Forall₂ Pot.Alike ((layers first).map asPot) ((layers second).map asPot) := by
  have amounts := Chips.mergeSort_eq_of_perm ((same.map Prod.snd).filter (· ≠ 0))
  simp only [layers, amounts]
  exact above_of_perm same 0 _

end SidePot

namespace Showdown

variable {s : Showdown} {sides : List SidePot}

theorem pots_of_alike (active : List PlayerId)
    (alike : List.Forall₂ Pot.Alike (s.sidePots.map SidePot.asPot) (sides.map SidePot.asPot)) :
    List.Forall₂ Pot.Alike (s.pots active) ({ s with sidePots := sides }.pots active) := by
  have empty : (s.sidePots.map SidePot.asPot).isEmpty = (sides.map SidePot.asPot).isEmpty := by
    rw [Bool.eq_iff_iff, List.isEmpty_iff_length_eq_zero, List.isEmpty_iff_length_eq_zero,
      alike.length_eq]
  have plain : List.Forall₂ Pot.Alike [⟨s.pot, active⟩] [⟨s.pot, active⟩] :=
    .cons ⟨rfl, .refl _⟩ .nil
  change List.Forall₂ _
    (if (s.sidePots.map SidePot.asPot).isEmpty || s.pot ≠ 0 then _ else _)
    (if (sides.map SidePot.asPot).isEmpty || s.pot ≠ 0 then _ else _)
  rw [empty]
  split
  · exact List.rel_append alike plain
  · exact alike

/-- Side pots that differ in the order of their lists only are settled alike. -/
theorem settle_of_alike (judge : Judge) (someone : ∃ p ∈ s.players, p.folded = false)
    (alike : List.Forall₂ Pot.Alike (s.sidePots.map SidePot.asPot) (sides.map SidePot.asPot)) :
    s.settle judge = { s with sidePots := sides }.settle judge := by
  have pots := pots_of_alike (s.active judge) alike
  have refunds : s.refunds judge = { s with sidePots := sides }.refunds judge :=
    Pot.refunds_of_alike pots
  have payments : s.payments judge = { s with sidePots := sides }.payments judge :=
    flatMap_zipIdx_congr (Pot.resolve_of_alike pots)
      (fun _ _ k near => near.payments (s.contenders judge) k) 0
  rw [settle_of_someone someone, settle_of_someone (s := { s with sidePots := sides }) someone,
    credits, credits, refunds, payments]
  rfl

/-- Whoever is told first of the contributions, the layers cut from them lead to the same stacks and
the same account: awards in the same order, scores and refunds. Ids may repeat, and sums may be cut
off at the cap. -/
theorem settle_eq_of_perm (judge : Judge) (players : List Player) (pot : Chips) (board : List Card)
    (first second : Contributions) (someone : ∃ p ∈ players, p.folded = false)
    (same : first.Perm second) :
    settle judge { players, pot, sidePots := SidePot.layers first, board } =
      settle judge { players, pot, sidePots := SidePot.layers second, board } :=
  settle_of_alike judge (s := { players, pot, sidePots := SidePot.layers first, board }) someone
    (SidePot.layers_of_perm same)

/-- Bets with ties, one of them by a player who has folded, and the highest by nobody seated. -/
def tableBets : Contributions :=
  [(2, .ofNat 20), (1, .ofNat 45), (3, .ofNat 20), (9, .ofNat 60), (4, 0)]

/-- Players 1 and 2 are in play, player 3 has folded, and the bets are reported in some order. -/
def reported (bets : Contributions) : Showdown where
  players := [.seated 1 (.ofNat 10), .seated 2 0,
    { Player.seated 3 (.ofNat 5) with folded := true }]
  pot := .ofNat 3
  sidePots := SidePot.layers bets

theorem settle_eq_of_perm_tableBets :
    (∃ p ∈ (reported tableBets).players, p.folded = false) ∧ tableBets.Perm tableBets.reverse ∧
      (reported tableBets).settle Hand.judge = (reported tableBets.reverse).settle Hand.judge ∧
      ((reported tableBets.reverse).settle Hand.judge).2.refunds = [(9, .ofNat 15)] := by
  have someone : ∃ p ∈ (reported tableBets).players, p.folded = false := by decide
  have reversed : tableBets.Perm tableBets.reverse := (List.reverse_perm _).symm
  have same : (reported tableBets).settle Hand.judge =
      (reported tableBets.reverse).settle Hand.judge :=
    settle_eq_of_perm Hand.judge _ _ _ tableBets tableBets.reverse someone reversed
  exact ⟨someone, reversed, same, (congrArg (·.2.refunds) same).symm.trans (by cbv)⟩

end Showdown

end CardRoom
