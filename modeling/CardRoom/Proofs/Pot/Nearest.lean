import Mathlib
import CardRoom.Proofs.Pot.Heirs

/-! # The nearest contested pot

Chips that no active player can win go back when a single player put them in, and are stranded
otherwise. The heir of a stranded pot is the nearest contested pot below, else the nearest above.
All of this is told from the pots as they are before any chips move.
-/

namespace CardRoom.Pot

variable {active : List PlayerId} {pots now : List Pot} {p : Pot} {i j k n : Nat}

/-! ## The nearest contested pot -/

def contestedAt (active : List PlayerId) (pots : List Pot) (i : Nat) : Bool :=
  pots[i]?.any (isContested active)

/-- Pot `j` is the nearest contested pot below pot `k` or, when none is below, the nearest above. -/
def IsNearest (active : List PlayerId) (pots : List Pot) (j k : Nat) : Prop :=
  contestedAt active pots j = true ∧
    ((j < k ∧ ∀ i < k, j < i → contestedAt active pots i = false) ∨
      (k < j ∧ (∀ i < k, contestedAt active pots i = false) ∧
        ∀ i < j, k < i → contestedAt active pots i = false))

instance : Decidable (IsNearest active pots j k) := inferInstanceAs (Decidable (_ ∧ _))

theorem lt_length_of_contestedAt (contested : contestedAt active pots j = true) :
    j < pots.length := by
  by_contra beyond
  simp [contestedAt, List.getElem?_eq_none (Nat.le_of_not_lt beyond)] at contested

theorem contestedAt_of_uncontested (nobody : ∀ p ∈ pots, p.isContested active = false) (i : Nat) :
    contestedAt active pots i = false := by
  rw [contestedAt]
  cases here : pots[i]? with
  | none => rfl
  | some p => exact nobody p (List.mem_of_getElem? here)

theorem find?_reverse_range {holds : Nat → Bool} :
    (List.range k).reverse.find? holds = some j ↔
      holds j = true ∧ j < k ∧ ∀ i < k, j < i → holds i = false := by
  -- The search starts at the last place: if it does not hold there, the shorter one decides.
  induction k with
  | zero => simp
  | succ k ih =>
      rw [List.range_succ, List.reverse_append, List.reverse_singleton, List.singleton_append,
        List.find?_cons]
      cases last : holds k with
      | true =>
          simp only [Option.some.injEq]
          constructor
          · rintro rfl
            exact ⟨last, Nat.lt_succ_self k, fun i bound later => by omega⟩
          · rintro ⟨-, bound, none_later⟩
            by_contra apart
            have refuted := none_later k (Nat.lt_succ_self k) (by omega)
            rw [last] at refuted
            cases refuted
      | false =>
          rw [ih]
          constructor
          · rintro ⟨found, bound, none_later⟩
            refine ⟨found, by omega, fun i within later => ?_⟩
            rcases Nat.lt_succ_iff_lt_or_eq.mp within with earlier | rfl
            · exact none_later i earlier later
            · exact last
          · rintro ⟨found, bound, none_later⟩
            have apart : j ≠ k := by
              rintro rfl
              rw [last] at found
              cases found
            exact ⟨found, by omega, fun i within => none_later i (by omega)⟩

theorem heir?_eq (active : List PlayerId) (pots : List Pot) (k : Nat) :
    heir? active pots k = ((List.range k).reverse ++
      List.range' (k + 1) (pots.length - (k + 1))).find? (contestedAt active pots) := rfl

theorem heir?_eq_some_iff : heir? active pots k = some j ↔ IsNearest active pots j k := by
  have below : (List.range k).reverse.find? (contestedAt active pots) = none ↔
      ∀ i < k, contestedAt active pots i = false := by
    simp
  rw [heir?_eq, List.find?_append, Option.or_eq_some_iff, find?_reverse_range, below,
    List.find?_range'_eq_some, List.mem_range'_1]
  constructor
  · rintro (⟨contested, lower, none_between⟩ | ⟨none_below, contested, bounds, none_between⟩)
    · exact ⟨contested, .inl ⟨lower, none_between⟩⟩
    · exact ⟨contested, .inr ⟨by omega, none_below, fun i before after => by
        simpa using none_between i after before⟩⟩
  · rintro ⟨contested, ⟨lower, none_between⟩ | ⟨higher, none_below, none_between⟩⟩
    · exact .inl ⟨contested, lower, none_between⟩
    · have bound := lt_length_of_contestedAt contested
      exact .inr ⟨none_below, contested, by omega, fun i after before => by
        simpa using none_between i before after⟩

/-- A pot other than itself being contested, every pot has an heir. -/
theorem exists_heir (contested : contestedAt active pots i = true) (apart : i ≠ k) :
    ∃ j, heir? active pots k = some j := by
  have bound := lt_length_of_contestedAt contested
  rw [← Option.isSome_iff_exists, heir?, List.find?_isSome]
  refine ⟨i, ?_, contested⟩
  rw [List.mem_append, List.mem_reverse, List.mem_range, List.mem_range'_1]
  omega

/-! ## Refunded and stranded chips -/

/-- Chips that go back to the only player on the list, who is not active. -/
def GoesBack (active : List PlayerId) (p : Pot) : Prop :=
  p.amount ≠ 0 ∧ p.isContested active = false ∧ p.eligible.length = 1

/-- Chips that nobody active can win and that do not go back. -/
def IsStranded (active : List PlayerId) (p : Pot) : Prop :=
  p.amount ≠ 0 ∧ p.isContested active = false ∧ p.eligible.length ≠ 1

instance : Decidable (GoesBack active p) := inferInstanceAs (Decidable (_ ∧ _))

instance : Decidable (IsStranded active p) := inferInstanceAs (Decidable (_ ∧ _))

theorem eq_of_fields {q : Pot} (amounts : q.amount = p.amount) (lists : q.eligible = p.eligible) :
    q = p := by
  cases q
  cases p
  simp_all

theorem isContested_congr {q : Pot} (same : q.eligible = p.eligible) :
    q.isContested active = p.isContested active := by
  rw [isContested, isContested, same]

theorem isContested_singleton {id : PlayerId} (alone : p.eligible = [id]) :
    p.isContested active = false ↔ id ∉ active := by
  simp [isContested, alone]

theorem refund?_of_goesBack (back : GoesBack active p) :
    ∃ id, p.eligible = [id] ∧ refund? active p = some (id, p.amount) := by
  obtain ⟨filled, idle, single⟩ := back
  obtain ⟨id, alone⟩ := List.length_eq_one_iff.mp single
  exact ⟨id, alone, refund?_eq_some.mpr ⟨alone, rfl, filled, (isContested_singleton alone).mp idle⟩⟩

theorem refund?_of_not_goesBack (kept : ¬ GoesBack active p) : refund? active p = none := by
  cases back : refund? active p with
  | none => rfl
  | some refund =>
      obtain ⟨alone, -, filled, idle⟩ := refund?_eq_some.mp back
      exact absurd ⟨filled, (isContested_singleton alone).mpr idle, by simp [alone]⟩ kept

theorem refunds_eq (active : List PlayerId) (pots : List Pot) :
    refunds active pots = (pots.filter fun p => decide (GoesBack active p)).flatMap fun p =>
      p.eligible.map fun id => (id, p.amount) := by
  induction pots with
  | nil => rfl
  | cons p pots ih =>
      rw [refunds, List.filterMap_cons, ← refunds, ih]
      by_cases back : GoesBack active p
      · obtain ⟨id, alone, refunded⟩ := refund?_of_goesBack back
        simp [refunded, back, alone]
      · simp [refund?_of_not_goesBack back, back]

/-- A pot less what goes back. -/
def lessRefund (active : List PlayerId) (p : Pot) : Pot :=
  if GoesBack active p then { p with amount := 0 } else p

theorem eligible_lessRefund (active : List PlayerId) (p : Pot) :
    (lessRefund active p).eligible = p.eligible := by
  unfold lessRefund
  split <;> rfl

theorem isContested_lessRefund (active : List PlayerId) (p : Pot) :
    (lessRefund active p).isContested active = p.isContested active :=
  isContested_congr (eligible_lessRefund active p)

theorem lessRefund_of_not_goesBack (kept : ¬ GoesBack active p) : lessRefund active p = p :=
  if_neg kept

/-- What is unsettled once refunds are out was there before and is stranded. -/
theorem lessRefund_of_loose (loose : ¬ Settled active (lessRefund active p)) :
    lessRefund active p = p ∧ IsStranded active p := by
  by_cases back : GoesBack active p
  · exact absurd (.inl (by simp [lessRefund, back])) loose
  · rw [lessRefund_of_not_goesBack back] at loose ⊢
    simp only [Settled, not_or, Bool.not_eq_true] at loose
    exact ⟨rfl, loose.1, loose.2, fun single => back ⟨loose.1, loose.2, single⟩⟩

theorem isStranded_lessRefund :
    IsStranded active (lessRefund active p) ↔ IsStranded active p := by
  by_cases back : GoesBack active p
  · simp [IsStranded, lessRefund, back, back.2.2]
  · rw [lessRefund_of_not_goesBack back]

theorem withoutRefunds_eq (active : List PlayerId) (pots : List Pot) :
    withoutRefunds active pots = pots.map (lessRefund active) := by
  apply List.map_congr_left
  intro p _
  by_cases back : GoesBack active p
  · obtain ⟨id, -, refunded⟩ := refund?_of_goesBack back
    simp [refunded, lessRefund, back]
  · simp [refund?_of_not_goesBack back, lessRefund, back]

theorem stranded_of_mem_withoutRefunds (member : p ∈ withoutRefunds active pots)
    (loose : ¬ Settled active p) : IsStranded active p := by
  rw [withoutRefunds_eq] at member
  obtain ⟨q, -, rfl⟩ := List.mem_map.mp member
  obtain ⟨same, stranded⟩ := lessRefund_of_loose loose
  rw [same]
  exact stranded

theorem getElem?_withoutRefunds :
    (withoutRefunds active pots)[i]? = pots[i]?.map (lessRefund active) := by
  rw [withoutRefunds_eq, List.getElem?_map]

theorem contestedAt_withoutRefunds (active : List PlayerId) (pots : List Pot) :
    contestedAt active (withoutRefunds active pots) = contestedAt active pots := by
  funext i
  rw [contestedAt, contestedAt, getElem?_withoutRefunds]
  cases pots[i]? with
  | none => rfl
  | some p => exact isContested_lessRefund active p

/-! ## What a pot inherits -/

/-- What the first `n` pots leave to pot `j`. -/
def inherited (active : List PlayerId) (pots : List Pot) (j n : Nat) : Nat :=
  tally (((pots.zipIdx.take n).filter fun (p, k) =>
    IsStranded active p ∧ IsNearest active pots j k).map (·.1.amount.count))

theorem inherited_zero : inherited active pots j 0 = 0 := rfl

theorem inherited_succ (active : List PlayerId) (pots : List Pot) (j n : Nat) :
    inherited active pots j (n + 1) = inherited active pots j n + pots[n]?.elim 0 fun p =>
      if IsStranded active p ∧ IsNearest active pots j n then p.amount.count else 0 := by
  rw [inherited, List.take_add_one, List.getElem?_zipIdx, Nat.zero_add]
  cases pots[n]? with
  | none => simp [inherited]
  | some p =>
      by_cases left : IsStranded active p ∧ IsNearest active pots j n
      · simp [inherited, left]
      · simp only [inherited, Option.map_some, Option.toList_some, List.filter_append,
          List.filter_cons, left, decide_false, Bool.false_eq_true, if_false, List.filter_nil,
          List.append_nil, Option.elim_some, Nat.add_zero]

theorem inherited_succ_of_idle (idle : ∀ p, pots[n]? = some p → ¬ IsStranded active p) :
    inherited active pots j (n + 1) = inherited active pots j n := by
  rw [inherited_succ]
  cases here : pots[n]? with
  | none => rfl
  | some p => simp [idle p here]

theorem inherited_withoutRefunds (active : List PlayerId) (pots : List Pot) (j n : Nat) :
    inherited active (withoutRefunds active pots) j n = inherited active pots j n := by
  induction n with
  | zero => rfl
  | succ n ih =>
      rw [inherited_succ, inherited_succ, ih, getElem?_withoutRefunds]
      cases pots[n]? with
      | none => rfl
      | some p =>
          by_cases stranded : IsStranded active p
          · have kept : ¬ GoesBack active p := fun back => stranded.2.2 back.2.2
            have nearest : IsNearest active (withoutRefunds active pots) j n ↔
                IsNearest active pots j n := by
              simp only [IsNearest, contestedAt_withoutRefunds]
            rw [Option.map_some, lessRefund_of_not_goesBack kept, Option.elim_some,
              Option.elim_some]
            exact congrArg _ (if_congr (and_congr_right fun _ => nearest) rfl rfl)
          · simp [stranded, isStranded_lessRefund]

end CardRoom.Pot
