import Mathlib
import CardRoom.Pot.Uncontested
import CardRoom.Proofs.Tallies

/-! # Chips find an heir

Taking refunds out and passing chips on keeps the total of the pots. One turn leaves its own
pot settled, that is empty or contested, and unsettles no other pot, so after all turns chips
lie only where somebody active can win them.
-/

namespace CardRoom.Pot

/-- All chips of some pots, never cut off. -/
def total (pots : List Pot) : Nat := tally (pots.map (·.amount.count))

/-- Chips lie in the pot only if somebody active can win them. -/
def Settled (active : List PlayerId) (p : Pot) : Prop := p.amount = 0 ∨ p.isContested active = true

variable {active : List PlayerId} {pots : List Pot} {p : Pot} {j k : Nat}

theorem isContested_iff : p.isContested active = true ↔ ∃ id ∈ p.eligible, id ∈ active := by
  simp [isContested]

theorem amount_le_total (member : p ∈ pots) : p.amount.count ≤ total pots :=
  le_tally (List.mem_map_of_mem member)

/-! ## Refunds -/

theorem refund?_eq_some {id : PlayerId} {c : Chips} :
    refund? active p = some (id, c) ↔
      p.eligible = [id] ∧ c = p.amount ∧ p.amount ≠ 0 ∧ id ∉ active := by
  unfold refund?
  split
  · rename_i only alone
    simp only [alone, Option.ite_none_right_eq_some, Option.some.injEq, Prod.mk.injEq,
      List.cons.injEq, and_true]
    constructor
    · rintro ⟨⟨filled, idle⟩, rfl, rfl⟩
      exact ⟨rfl, rfl, filled, idle⟩
    · rintro ⟨rfl, rfl, filled, idle⟩
      exact ⟨⟨filled, idle⟩, rfl, rfl⟩
  · rename_i several
    simp only [reduceCtorEq, false_iff, not_and]
    intro alone
    exact absurd alone (several id)

theorem total_withoutRefunds (active : List PlayerId) (pots : List Pot) :
    tally ((refunds active pots).map (·.2.count)) + total (withoutRefunds active pots) =
      total pots := by
  induction pots with
  | nil => rfl
  | cons p pots ih =>
      simp only [total, refunds, withoutRefunds, List.map_cons, tally_cons,
        List.filterMap_cons] at ih ⊢
      cases back : refund? active p with
      | none =>
          simp only [Option.isSome_none, Bool.false_eq_true, if_false]
          omega
      | some refund =>
          obtain ⟨id, c⟩ := refund
          obtain ⟨-, rfl, -, -⟩ := refund?_eq_some.mp back
          simp only [Option.isSome_some, if_true, List.map_cons, tally_cons, Chips.count_zero]
          omega

theorem total_withoutRefunds_le (active : List PlayerId) (pots : List Pot) :
    total (withoutRefunds active pots) ≤ total pots := by
  have parts := total_withoutRefunds active pots
  omega

@[simp] theorem length_withoutRefunds (active : List PlayerId) (pots : List Pot) :
    (withoutRefunds active pots).length = pots.length := by
  simp [withoutRefunds]

theorem filter_withoutRefunds {id : PlayerId} (member : id ∈ active) :
    (withoutRefunds active pots).filter (id ∈ ·.eligible) = pots.filter (id ∈ ·.eligible) := by
  induction pots with
  | nil => rfl
  | cons p pots ih =>
      simp only [withoutRefunds, List.map_cons] at ih ⊢
      cases back : refund? active p with
      | none =>
          simp only [Option.isSome_none, Bool.false_eq_true, if_false, List.filter_cons, ih]
      | some refund =>
          obtain ⟨alone, -, -, idle⟩ := refund?_eq_some.mp back
          have unlisted : id ∉ p.eligible := by
            rw [alone, List.mem_singleton]
            rintro rfl
            exact idle member
          simp only [Option.isSome_some, if_true, List.filter_cons, unlisted, decide_false,
            Bool.false_eq_true, if_false, ih]

/-! ## One turn -/

theorem heir?_spec (found : heir? active pots k = some j) :
    j ≠ k ∧ ∃ q, pots[j]? = some q ∧ q.isContested active = true := by
  unfold heir? at found
  have candidate := List.mem_of_find?_eq_some found
  have contested := List.find?_some found
  constructor
  · rw [List.mem_append, List.mem_reverse, List.mem_range, List.mem_range'_1] at candidate
    omega
  · cases at_j : pots[j]? with
    | none => simp [at_j] at contested
    | some q => exact ⟨q, rfl, by simpa [at_j] using contested⟩

/-- A turn finds its pot settled, or passes the chips on to an heir, or opens the pot. -/
theorem passOn_cases (active : List PlayerId) (pots : List Pot) (k : Nat) :
    (passOn active pots k = pots ∧ ∀ p, pots[k]? = some p → Settled active p) ∨
    (∃ p j q, pots[k]? = some p ∧ ¬ Settled active p ∧
      heir? active pots k = some j ∧ j ≠ k ∧ pots[j]? = some q ∧ q.isContested active = true ∧
      passOn active pots k =
        (pots.modify j fun q => { q with amount := q.amount + p.amount }).modify k fun q =>
          { q with amount := 0 }) ∨
    (∃ p, pots[k]? = some p ∧ ¬ Settled active p ∧ heir? active pots k = none ∧
      passOn active pots k = pots.modify k fun q => { q with eligible := active }) := by
  unfold passOn Settled
  cases here : pots[k]? with
  | none => exact .inl ⟨rfl, by simp⟩
  | some p =>
      by_cases settled : p.amount = 0 ∨ p.isContested active = true
      · refine .inl ⟨if_pos settled, fun q same => ?_⟩
        cases same
        exact settled
      · simp only [if_neg settled]
        cases found : heir? active pots k with
        | some j =>
            obtain ⟨apart, q, there, contested⟩ := heir?_spec found
            exact .inr (.inl ⟨p, j, q, rfl, settled, rfl, apart, there, contested, rfl⟩)
        | none => exact .inr (.inr ⟨p, rfl, settled, rfl, rfl⟩)

/-- Two pots together hold no more than all pots do. -/
theorem amounts_le_total {q : Pot} (apart : j ≠ k) (here : pots[k]? = some p)
    (there : pots[j]? = some q) : q.amount.count + p.amount.count ≤ total pots := by
  have alone := tally_modify (fun q : Pot => q.amount.count) (fun q => { q with amount := 0 }) here
  have there' : (pots.modify k fun q => { q with amount := 0 })[j]? = some q := by
    rw [List.getElem?_modify_ne _ _ apart.symm, there]
  have kept : q.amount.count ≤ tally ((pots.modify k fun q => { q with amount := 0 }).map
      (·.amount.count)) :=
    amount_le_total (List.mem_of_getElem? there')
  simp only [total, Chips.count_zero] at *
  omega

/-- Emptying one pot into another keeps the total, since two entries of a total within the cap
are added up exactly. -/
theorem total_modify_modify {q : Pot} (fits : total pots ≤ cap) (apart : j ≠ k)
    (here : pots[k]? = some p) (there : pots[j]? = some q) :
    total ((pots.modify j fun q => { q with amount := q.amount + p.amount }).modify k fun q =>
      { q with amount := 0 }) = total pots := by
  have filled := tally_modify (fun q : Pot => q.amount.count)
    (fun q => { q with amount := q.amount + p.amount }) there
  have here' : (pots.modify j fun q => { q with amount := q.amount + p.amount })[k]? = some p := by
    rw [List.getElem?_modify_ne _ _ apart, here]
  have emptied := tally_modify (fun q : Pot => q.amount.count) (fun q => { q with amount := 0 }) here'
  have both := amounts_le_total apart here there
  simp only [total, Chips.count_add, Chips.count_zero] at *
  omega

theorem total_passOn (fits : total pots ≤ cap) (k : Nat) :
    total (passOn active pots k) = total pots := by
  obtain ⟨same, -⟩ | ⟨p, j, q, here, -, -, apart, there, -, moved⟩ | ⟨p, here, -, -, opened⟩ :=
    passOn_cases active pots k
  · rw [same]
  · rw [moved]
    exact total_modify_modify fits apart here there
  · have kept := tally_modify (fun q : Pot => q.amount.count)
      (fun q => { q with eligible := active }) here
    rw [opened]
    simp only [total] at *
    omega

theorem settled_passOn_self (someone : active ≠ []) (here : (passOn active pots k)[k]? = some p) :
    Settled active p := by
  obtain ⟨same, settled⟩ | ⟨q, j, _, -, -, -, -, -, -, moved⟩ | ⟨q, before, -, -, opened⟩ :=
    passOn_cases active pots k
  · exact settled p (by rwa [same] at here)
  · rw [moved, List.getElem?_modify_eq, Option.map_eq_map] at here
    obtain ⟨-, -, rfl⟩ := Option.map_eq_some_iff.mp here
    exact .inl rfl
  · rw [opened, List.getElem?_modify_eq, before] at here
    cases here
    obtain ⟨id, member⟩ := List.exists_mem_of_ne_nil active someone
    exact .inr (isContested_iff.mpr ⟨id, member, member⟩)

/-- A turn unsettles no pot: whoever inherits is contested already. -/
theorem settled_passOn {i : Nat} (someone : active ≠ [])
    (settled : ∀ p, pots[i]? = some p → Settled active p)
    (here : (passOn active pots k)[i]? = some p) : Settled active p := by
  by_cases own : k = i
  · subst own
    exact settled_passOn_self someone here
  · obtain ⟨same, -⟩ | ⟨_, j, heir, -, -, -, -, there, contested, moved⟩ | ⟨_, -, -, -, opened⟩ :=
      passOn_cases active pots k
    · exact settled p (by rwa [same] at here)
    · rw [moved, List.getElem?_modify_ne _ _ own] at here
      by_cases inherits : j = i
      · subst inherits
        rw [List.getElem?_modify_eq, there] at here
        cases here
        exact .inr contested
      · exact settled p (by rwa [List.getElem?_modify_ne _ _ inherits] at here)
    · exact settled p (by rwa [opened, List.getElem?_modify_ne _ _ own] at here)

/-! ## All turns -/

theorem foldl_passOn (someone : active ≠ []) (fits : total pots ≤ cap) (n : Nat) :
    total ((List.range n).foldl (passOn active) pots) = total pots ∧
      ∀ i < n, ∀ p, ((List.range n).foldl (passOn active) pots)[i]? = some p → Settled active p := by
  -- Induction on the turns taken: each settles its own pot and leaves the earlier ones settled.
  induction n with
  | zero => exact ⟨rfl, by simp⟩
  | succ n ih =>
      rw [List.range_succ, List.foldl_append, List.foldl_cons, List.foldl_nil]
      obtain ⟨same, settled⟩ := ih
      constructor
      · rw [total_passOn (by rw [same]; exact fits), same]
      · intro i bound p here
        rcases Nat.lt_succ_iff_lt_or_eq.mp bound with earlier | rfl
        · exact settled_passOn someone (settled i earlier) here
        · exact settled_passOn_self someone here

theorem length_resolve (active : List PlayerId) (pots : List Pot) :
    (resolve active pots).length = pots.length := by
  unfold resolve
  generalize List.range pots.length = turns
  suffices each : ∀ pots, (turns.foldl (passOn active) pots).length = pots.length by
    rw [each, length_withoutRefunds]
  induction turns with
  | nil => exact fun _ => rfl
  | cons k turns ih => exact fun pots => by rw [List.foldl_cons, ih, length_passOn]

theorem foldl_passOn_of_settled (settled : ∀ k < n, ∀ p, pots[k]? = some p → Settled active p) :
    (List.range n).foldl (passOn active) pots = pots := by
  induction n with
  | zero => rfl
  | succ n ih =>
      rw [List.range_succ, List.foldl_append, List.foldl_cons, List.foldl_nil,
        ih fun k earlier => settled k (Nat.lt_succ_of_lt earlier)]
      obtain ⟨same, -⟩ | ⟨p, _, _, here, loose, -⟩ | ⟨p, here, loose, -⟩ := passOn_cases active pots n
      · exact same
      · exact absurd (settled n (Nat.lt_succ_self n) p here) loose
      · exact absurd (settled n (Nat.lt_succ_self n) p here) loose

theorem resolve_of_settled (settled : ∀ p ∈ withoutRefunds active pots, Settled active p) :
    resolve active pots = withoutRefunds active pots :=
  foldl_passOn_of_settled fun _ _ p here => settled p (List.mem_of_getElem? here)

theorem total_resolve (someone : active ≠ []) (fits : total pots ≤ cap) :
    tally ((refunds active pots).map (·.2.count)) + total (resolve active pots) = total pots := by
  have within := (total_withoutRefunds_le active pots).trans fits
  rw [resolve, (foldl_passOn someone within pots.length).1, total_withoutRefunds]

/-- Once resolved, chips lie only where somebody active can win them. -/
theorem settled_of_mem_resolve (someone : active ≠ []) (fits : total pots ≤ cap)
    (member : p ∈ resolve active pots) : Settled active p := by
  have within := (total_withoutRefunds_le active pots).trans fits
  obtain ⟨i, bound, rfl⟩ := List.mem_iff_getElem.mp member
  rw [length_resolve] at bound
  exact (foldl_passOn someone within pots.length).2 i bound _
    (List.getElem?_eq_getElem _)

end CardRoom.Pot
