import Mathlib
import CardRoom.Proofs.Pot.Nearest

/-! # Where stranded chips end up

While some pot is contested, only contested pots receive chips and only the others pass them on,
so each turn moves what was there at first to the heir that could be told at first. When no pot
is contested, the first stranded pot is opened to all, and every turn goes as if it had been open
from the start.
-/

namespace CardRoom.Pot

variable {active : List PlayerId} {pots now : List Pot} {p : Pot} {i j k n : Nat}

/-! ## The turns while a pot is contested -/

/-- The pots after the first `n` turns: the contested ones have taken over what was left to them,
and the others are empty as far as the turns have come. -/
structure Shared (active : List PlayerId) (pots now : List Pot) (n : Nat) : Prop where
  length : now.length = pots.length
  at_place : ∀ i (p : Pot), pots[i]? = some p → ∃ q : Pot, now[i]? = some q ∧
    q.eligible = p.eligible ∧ q.amount.count =
      if p.isContested active then p.amount.count + inherited active pots i n
      else if i < n then 0 else p.amount.count

namespace Shared

theorem start (active : List PlayerId) (pots : List Pot) : Shared active pots pots 0 := by
  refine ⟨rfl, fun i p here => ⟨p, here, rfl, ?_⟩⟩
  simp [inherited_zero]

variable (shared : Shared active pots now n)
include shared

theorem exists_before {q : Pot} (here : now[i]? = some q) : ∃ p, pots[i]? = some p := by
  have bound := (List.getElem?_eq_some_iff.mp here).1
  rw [shared.length] at bound
  exact ⟨_, List.getElem?_eq_getElem bound⟩

theorem contestedAt_eq : contestedAt active now = contestedAt active pots := by
  funext i
  rw [contestedAt, contestedAt]
  cases before : pots[i]? with
  | none =>
      have beyond := List.getElem?_eq_none_iff.mp before
      rw [← shared.length] at beyond
      rw [List.getElem?_eq_none beyond]
  | some p =>
      obtain ⟨q, after, same, -⟩ := shared.at_place i p before
      rw [after, Option.any_some, Option.any_some, isContested_congr same]

theorem heir?_eq_heir? : heir? active now k = heir? active pots k := by
  rw [heir?_eq, heir?_eq, shared.contestedAt_eq, shared.length]

/-- A turn that finds its pot settled found nothing stranded there at first. -/
theorem stay (settled : ∀ q, now[n]? = some q → Settled active q) :
    Shared active pots now (n + 1) := by
  have idle : ∀ p, pots[n]? = some p → ¬ IsStranded active p := by
    intro p before stranded
    obtain ⟨q, after, same, count⟩ := shared.at_place n p before
    rw [stranded.2.1, if_neg Bool.false_ne_true, if_neg (Nat.lt_irrefl n)] at count
    rcases settled q after with empty | contested
    · rw [empty, Chips.count_zero] at count
      exact stranded.1 (Chips.count_eq_zero.mp count.symm)
    · rw [isContested_congr same, stranded.2.1] at contested
      cases contested
  refine ⟨shared.length, fun i p before => ?_⟩
  obtain ⟨q, after, same, count⟩ := shared.at_place i p before
  refine ⟨q, after, same, ?_⟩
  rw [inherited_succ_of_idle idle]
  by_cases contested : p.isContested active = true
  · rw [count, if_pos contested, if_pos contested]
  · rw [if_neg contested]
    rw [if_neg contested] at count
    by_cases own : i = n
    · subst own
      rw [if_pos (Nat.lt_succ_self i)]
      rcases settled q after with empty | wins
      · rw [empty, Chips.count_zero]
      · rw [isContested_congr same] at wins
        exact absurd wins contested
    · rw [count]
      exact if_congr (by omega) rfl rfl

/-- Until its turn comes, an uncontested pot is what it was. -/
theorem now_of_uncontested (before : pots[n]? = some p) (idle : p.isContested active = false) :
    now[n]? = some p := by
  obtain ⟨q, after, same, count⟩ := shared.at_place n p before
  rw [idle, if_neg Bool.false_ne_true, if_neg (Nat.lt_irrefl n)] at count
  rw [after, eq_of_fields (Chips.ext count) same]

/-- A turn that finds stranded chips moves them to the heir. -/
theorem move (fits : total now ≤ cap) (before : pots[n]? = some p)
    (stranded : IsStranded active p) (nearest : IsNearest active pots j n) :
    Shared active pots ((now.modify j fun q => { q with amount := q.amount + p.amount }).modify n
      fun q => { q with amount := 0 }) (n + 1) := by
  have here := shared.now_of_uncontested before stranded.2.1
  have apart : j ≠ n := by
    rcases nearest.2 with ⟨lower, -⟩ | ⟨higher, -⟩ <;> omega
  have only : ∀ i, IsNearest active pots i n → i = j := by
    intro i also
    rw [← heir?_eq_some_iff] at also nearest
    exact Option.some.inj (also.symm.trans nearest)
  refine ⟨by rw [List.length_modify, List.length_modify, shared.length], fun i r start => ?_⟩
  obtain ⟨q, after, same, count⟩ := shared.at_place i r start
  rw [inherited_succ, before, Option.elim_some, List.getElem?_modify, List.getElem?_modify, after]
  by_cases own : n = i
  · subst own
    obtain rfl := Option.some.inj (before.symm.trans start)
    refine ⟨_, rfl, ?_⟩
    simp [stranded.2.1, apart, same]
  · by_cases inherits : j = i
    · subst inherits
      have room := amounts_le_total apart here after
      have wins : r.isContested active = true := by
        have contested := nearest.1
        rwa [contestedAt, start, Option.any_some] at contested
      rw [if_pos wins] at count
      refine ⟨_, rfl, ?_⟩
      simp only [own, if_false, if_true, same, wins, stranded, nearest, and_self, Chips.count_add,
        true_and]
      omega
    · refine ⟨q, by simp [own, inherits], same, ?_⟩
      have elsewhere : ¬ IsNearest active pots i n := fun also => inherits (only i also).symm
      have turn : i < n ↔ i < n + 1 := by omega
      simp only [count, turn, elsewhere, and_false, if_false, Nat.add_zero]

/-- Every turn finds its own pot as it was at first, unless the pot is settled. -/
theorem next (fits : total now ≤ cap)
    (loose : ∀ p ∈ pots, ¬ Settled active p → IsStranded active p)
    (contested : contestedAt active pots i = true) :
    Shared active pots (passOn active now n) (n + 1) := by
  have start : ∀ q, now[n]? = some q → ¬ Settled active q →
      pots[n]? = some q ∧ IsStranded active q := by
    intro q here unsettled
    obtain ⟨p, before⟩ := shared.exists_before here
    obtain ⟨r, after, same, -⟩ := shared.at_place n p before
    obtain rfl := Option.some.inj (here.symm.trans after)
    have idle : p.isContested active = false := by
      rw [← isContested_congr same]
      exact Bool.eq_false_iff.mpr fun wins => unsettled (.inr wins)
    obtain rfl := Option.some.inj (here.symm.trans (shared.now_of_uncontested before idle))
    exact ⟨before, loose q (List.mem_of_getElem? before) unsettled⟩
  obtain ⟨same, settled⟩ | ⟨q, j, heir, here, unsettled, found, -, -, -, moved⟩ |
      ⟨q, here, unsettled, nobody, -⟩ := passOn_cases active now n
  · rw [same]
    exact shared.stay settled
  · obtain ⟨before, stranded⟩ := start q here unsettled
    rw [shared.heir?_eq_heir?, heir?_eq_some_iff] at found
    rw [moved]
    exact shared.move fits before stranded found
  -- With a contested pot there always is an heir, so no pot is opened.
  · obtain ⟨before, stranded⟩ := start q here unsettled
    have apart : i ≠ n := by
      rintro rfl
      rw [contestedAt, before, Option.any_some, stranded.2.1] at contested
      cases contested
    obtain ⟨j, found⟩ := exists_heir contested apart
    rw [shared.heir?_eq_heir?, found] at nobody
    cases nobody

end Shared

theorem ne_nil_of_contestedAt (contested : contestedAt active pots i = true) : active ≠ [] := by
  rintro rfl
  cases here : pots[i]? <;> simp [contestedAt, isContested, here] at contested

/-- The run of the turns: after each of them, chips are shared as far as the turns have come. -/
theorem shared_foldl_passOn (fits : total pots ≤ cap)
    (loose : ∀ p ∈ pots, ¬ Settled active p → IsStranded active p)
    (contested : contestedAt active pots i = true) (n : Nat) :
    Shared active pots ((List.range n).foldl (passOn active) pots) n := by
  induction n with
  | zero => exact Shared.start active pots
  | succ n ih =>
      rw [List.range_succ, List.foldl_append, List.foldl_cons, List.foldl_nil]
      have kept := (foldl_passOn (ne_nil_of_contestedAt contested) fits n).1
      exact ih.next (kept ▸ fits) loose contested

/-! ## The turns while no pot is contested -/

def opened (active : List PlayerId) (pots : List Pot) (k : Nat) : List Pot :=
  pots.modify k fun q => { q with eligible := active }

theorem passOn_eq_opened (here : pots[k]? = some p) (loose : ¬ Settled active p)
    (nobody : ∀ i, contestedAt active pots i = false) :
    passOn active pots k = opened active pots k := by
  obtain ⟨-, settled⟩ | ⟨_, j, _, -, -, found, -⟩ | ⟨_, -, -, -, open_to_all⟩ :=
    passOn_cases active pots k
  · exact absurd (settled p here) loose
  · rw [heir?_eq_some_iff] at found
    exact absurd found.1 (by simp [nobody])
  · exact open_to_all

theorem contestedAt_opened (someone : active ≠ []) (here : pots[k]? = some p) :
    contestedAt active (opened active pots k) k = true := by
  obtain ⟨id, member⟩ := List.exists_mem_of_ne_nil active someone
  rw [contestedAt, opened, List.getElem?_modify_eq, here]
  exact isContested_iff.mpr ⟨id, member, member⟩

theorem total_opened (active : List PlayerId) (pots : List Pot) (k : Nat) :
    total (opened active pots k) = total pots := by
  cases here : pots[k]? with
  | none => rw [opened, List.modify_eq_self (List.getElem?_eq_none_iff.mp here)]
  | some p =>
      have kept := tally_modify (fun q : Pot => q.amount.count)
        (fun q => { q with eligible := active }) here
      simp only [total, opened] at *
      omega

theorem stranded_of_mem_opened (someone : active ≠ [])
    (loose : ∀ p ∈ pots, ¬ Settled active p → IsStranded active p)
    (member : p ∈ opened active pots k) (unsettled : ¬ Settled active p) : IsStranded active p := by
  obtain ⟨i, there⟩ := List.mem_iff_getElem?.mp member
  by_cases own : k = i
  · subst own
    rw [opened, List.getElem?_modify_eq, Option.map_eq_map] at there
    obtain ⟨q, -, rfl⟩ := Option.map_eq_some_iff.mp there
    obtain ⟨id, is_active⟩ := List.exists_mem_of_ne_nil active someone
    exact absurd (.inr (isContested_iff.mpr ⟨id, is_active, is_active⟩)) unsettled
  · rw [opened, List.getElem?_modify_ne _ _ own] at there
    exact loose p (List.mem_of_getElem? there) unsettled

/-- With no pot contested, the turns go as if the first pot with chips had been open before. -/
theorem foldl_passOn_opened (someone : active ≠ []) (here : pots[k]? = some p)
    (loose : ¬ Settled active p) (earlier : ∀ i < k, ∀ q, pots[i]? = some q → Settled active q)
    (nobody : ∀ i, contestedAt active pots i = false) (later : k < n) :
    (List.range n).foldl (passOn active) pots =
      (List.range n).foldl (passOn active) (opened active pots k) := by
  -- Up to its own turn nothing happens in either run, and then both have the pot open.
  induction n, later using Nat.le_induction with
  | base =>
      have settled : ∀ i < k.succ, ∀ q, (opened active pots k)[i]? = some q →
          Settled active q := by
        intro i bound q there
        rcases Nat.lt_succ_iff_lt_or_eq.mp bound with before | rfl
        · rw [opened, List.getElem?_modify_ne _ _ (Nat.ne_of_gt before)] at there
          exact earlier i before q there
        · have wins := contestedAt_opened someone here
          rw [contestedAt, there] at wins
          exact .inr wins
      rw [foldl_passOn_of_settled settled, List.range_succ, List.foldl_append, List.foldl_cons,
        List.foldl_nil, foldl_passOn_of_settled earlier, passOn_eq_opened here loose nobody]
  | succ n _ ih => simp only [List.range_succ, List.foldl_append, ih]

/-! ## Every destination -/

theorem getElem?_resolve_of_contested (fits : total pots ≤ cap)
    (contested : ∃ p ∈ pots, p.isContested active = true) (here : pots[j]? = some p) :
    ∃ q, (resolve active pots)[j]? = some q ∧ q.eligible = p.eligible ∧
      q.amount.count =
        if p.isContested active then p.amount.count + inherited active pots j pots.length else 0 := by
  obtain ⟨i, contested⟩ : ∃ i, contestedAt active (withoutRefunds active pots) i = true := by
    obtain ⟨q, member, wins⟩ := contested
    obtain ⟨i, there⟩ := List.mem_iff_getElem?.mp member
    exact ⟨i, by rw [contestedAt_withoutRefunds, contestedAt, there, Option.any_some, wins]⟩
  have within := (total_withoutRefunds_le active pots).trans fits
  have shared := shared_foldl_passOn within (fun _ => stranded_of_mem_withoutRefunds) contested
    pots.length
  have bound := (List.getElem?_eq_some_iff.mp here).1
  obtain ⟨q, after, same, count⟩ := shared.at_place j (lessRefund active p)
    (by rw [getElem?_withoutRefunds, here, Option.map_some])
  refine ⟨q, after, same.trans (eligible_lessRefund active p), ?_⟩
  rw [count, inherited_withoutRefunds, isContested_lessRefund, if_pos bound]
  by_cases wins : p.isContested active = true
  · have kept : ¬ GoesBack active p := fun back => by simp [back.2.1] at wins
    rw [lessRefund_of_not_goesBack kept]
  · rw [if_neg wins, if_neg wins]

/-- The place of the first stranded pot, the number of pots if there is none. -/
def firstStranded (active : List PlayerId) (pots : List Pot) : Nat :=
  pots.findIdx fun p => decide (IsStranded active p)

theorem settled_before_firstStranded (before : i < firstStranded active pots)
    (there : (withoutRefunds active pots)[i]? = some p) : Settled active p := by
  rw [getElem?_withoutRefunds] at there
  obtain ⟨q, at_start, rfl⟩ := Option.map_eq_some_iff.mp there
  obtain ⟨_, rfl⟩ := List.getElem?_eq_some_iff.mp at_start
  by_contra loose
  exact of_decide_eq_false (List.not_of_lt_findIdx before) (lessRefund_of_loose loose).2

theorem settled_of_none_stranded (none_stranded : ¬ firstStranded active pots < pots.length)
    (member : p ∈ withoutRefunds active pots) : Settled active p := by
  obtain ⟨i, there⟩ := List.mem_iff_getElem?.mp member
  have bound := (List.getElem?_eq_some_iff.mp there).1
  rw [length_withoutRefunds] at bound
  exact settled_before_firstStranded (by omega) there

theorem isStranded_firstStranded (inside : firstStranded active pots < pots.length) :
    IsStranded active pots[firstStranded active pots] :=
  of_decide_eq_true
    (List.findIdx_getElem (p := fun p => decide (IsStranded active p)) (w := inside))

theorem getElem?_firstStranded (inside : firstStranded active pots < pots.length) :
    (withoutRefunds active pots)[firstStranded active pots]? =
      some pots[firstStranded active pots] := by
  have kept : ¬ GoesBack active pots[firstStranded active pots] :=
    fun back => (isStranded_firstStranded inside).2.2 back.2.2
  rw [getElem?_withoutRefunds, List.getElem?_eq_getElem inside, Option.map_some,
    lessRefund_of_not_goesBack kept]

/-- With no pot contested, chips are shared as if the first stranded pot were open. -/
theorem shared_opened (someone : active ≠ []) (fits : total pots ≤ cap)
    (nobody : ∀ p ∈ pots, p.isContested active = false)
    (inside : firstStranded active pots < pots.length) :
    Shared active (opened active (withoutRefunds active pots) (firstStranded active pots))
      (resolve active pots) pots.length := by
  have stranded := isStranded_firstStranded inside
  have at_first := getElem?_firstStranded inside
  have loose : ¬ Settled active pots[firstStranded active pots] := by
    simp [Settled, stranded.1, stranded.2.1]
  have nowhere : ∀ i, contestedAt active (withoutRefunds active pots) i = false := by
    intro i
    rw [contestedAt_withoutRefunds]
    exact contestedAt_of_uncontested nobody i
  have within : total (opened active (withoutRefunds active pots) (firstStranded active pots)) ≤
      cap := by
    rw [total_opened]
    exact (total_withoutRefunds_le active pots).trans fits
  rw [resolve, foldl_passOn_opened someone at_first loose
    (fun _ before _ there => settled_before_firstStranded before there) nowhere inside]
  exact shared_foldl_passOn within
    (fun _ => stranded_of_mem_opened someone fun _ => stranded_of_mem_withoutRefunds)
    (contestedAt_opened someone at_first) pots.length

theorem getElem?_resolve_of_uncontested (someone : active ≠ []) (fits : total pots ≤ cap)
    (nobody : ∀ p ∈ pots, p.isContested active = false) (here : pots[j]? = some p) :
    ∃ q, (resolve active pots)[j]? = some q ∧
      if j = firstStranded active pots then q.eligible = active else q = ⟨0, p.eligible⟩ := by
  have bound := (List.getElem?_eq_some_iff.mp here).1
  have idle := nobody p (List.mem_of_getElem? here)
  have less : (withoutRefunds active pots)[j]? = some (lessRefund active p) := by
    rw [getElem?_withoutRefunds, here, Option.map_some]
  by_cases inside : firstStranded active pots < pots.length
  · have shared := shared_opened someone fits nobody inside
    by_cases own : j = firstStranded active pots
    · obtain ⟨q, after, same, -⟩ := shared.at_place j
        { lessRefund active p with eligible := active }
        (by rw [opened, ← own, List.getElem?_modify_eq, less]; rfl)
      exact ⟨q, after, by rw [if_pos own, same]⟩
    · obtain ⟨q, after, same, count⟩ := shared.at_place j (lessRefund active p)
        (by rw [opened, List.getElem?_modify_ne _ _ (Ne.symm own), less])
      refine ⟨q, after, ?_⟩
      rw [isContested_lessRefund, idle, if_neg Bool.false_ne_true, if_pos bound] at count
      rw [if_neg own]
      exact eq_of_fields (Chips.ext count) (same.trans (eligible_lessRefund active p))
  · have unchanged := resolve_of_settled fun q => settled_of_none_stranded (p := q) inside
    refine ⟨_, unchanged ▸ less, ?_⟩
    rw [if_neg (by omega)]
    rcases settled_of_none_stranded inside (List.mem_of_getElem? less) with empty | wins
    · exact eq_of_fields empty (eligible_lessRefund active p)
    · rw [isContested_lessRefund, idle] at wins
      cases wins

theorem total_eq_of_single {q : Pot} (here : pots[k]? = some q)
    (others : ∀ j p, pots[j]? = some p → j ≠ k → p.amount = 0) : total pots = q.amount.count := by
  have emptied := tally_modify (fun q : Pot => q.amount.count) (fun q => { q with amount := 0 })
    here
  have nothing :
      tally ((pots.modify k fun q => { q with amount := 0 }).map (·.amount.count)) = 0 := by
    rw [tally_eq_sum]
    apply List.sum_eq_zero
    intro count listed
    obtain ⟨p, member, rfl⟩ := List.mem_map.mp listed
    obtain ⟨j, there⟩ := List.mem_iff_getElem?.mp member
    by_cases own : k = j
    · subst own
      rw [List.getElem?_modify_eq, here] at there
      cases there
      rfl
    · rw [List.getElem?_modify_ne _ _ own] at there
      exact Chips.count_eq_zero.mpr (others j p there (Ne.symm own))
  simp only [total, Chips.count_zero] at *
  omega

/-- Refunds are the filled uncontested pots of a single player, in order. When some pot is
contested, each contested pot takes over the stranded chips it is nearest to, the others end
empty, and no list changes. When none is, the first stranded pot takes over all chips that do not
go back and lists the active players, and the others end empty. No chips get lost. -/
theorem resolve_finds_nearest_heir (active : List PlayerId) (pots : List Pot)
    (someone : active ≠ []) (fits : total pots ≤ cap) :
    let back := refunds active pots
    let after := resolve active pots
    back = (pots.filter fun p => decide (GoesBack active p)).flatMap
        (fun p => p.eligible.map fun id => (id, p.amount)) ∧
      after.length = pots.length ∧
      ((∃ p ∈ pots, p.isContested active = true) → ∀ j (p : Pot), pots[j]? = some p →
        ∃ q : Pot, after[j]? = some q ∧ q.eligible = p.eligible ∧ q.amount.count =
          if p.isContested active then p.amount.count + inherited active pots j pots.length
          else 0) ∧
      ((∀ p ∈ pots, p.isContested active = false) → ∀ j (p : Pot), pots[j]? = some p →
        ∃ q : Pot, after[j]? = some q ∧
          if j = firstStranded active pots then
            q.eligible = active ∧ tally (back.map (·.2.count)) + q.amount.count = total pots
          else q = ⟨0, p.eligible⟩) ∧
      tally (back.map (·.2.count)) + total after = total pots := by
  intro back after
  have conserved : tally (back.map (·.2.count)) + total after = total pots :=
    total_resolve someone fits
  refine ⟨refunds_eq active pots, length_resolve active pots, ?_, ?_, conserved⟩
  · exact fun contested j p here => getElem?_resolve_of_contested fits contested here
  · intro nobody j p here
    obtain ⟨q, there, found⟩ := getElem?_resolve_of_uncontested someone fits nobody here
    refine ⟨q, there, ?_⟩
    by_cases first : j = firstStranded active pots
    · rw [if_pos first] at found ⊢
      refine ⟨found, ?_⟩
      -- The other pots end empty, so this one holds the whole total.
      rw [← conserved, total_eq_of_single there]
      intro i r after_i apart
      have bound := (List.getElem?_eq_some_iff.mp after_i).1
      rw [length_resolve] at bound
      obtain ⟨u, same, emptied⟩ := getElem?_resolve_of_uncontested someone fits nobody
        (List.getElem?_eq_getElem bound)
      rw [if_neg fun also => apart (also.trans first.symm)] at emptied
      obtain rfl := Option.some.inj (after_i.symm.trans same)
      rw [emptied]
    · rwa [if_neg first] at found ⊢

/-- Pots of a hand that players 7, 8 and 9 folded: one goes back, and three are stranded below,
between and above the pots of players 1 and 2. -/
def foldedAround : List Pot :=
  [⟨.ofNat 5, [8, 9]⟩, ⟨.ofNat 10, [1, 8]⟩, ⟨.ofNat 3, [7]⟩, ⟨.ofNat 4, [7, 8]⟩, ⟨.ofNat 6, [2]⟩,
    ⟨.ofNat 2, []⟩]

theorem resolve_finds_nearest_heir_foldedAround :
    ([1, 2] : List PlayerId) ≠ [] ∧ total foldedAround ≤ cap ∧
      refunds [1, 2] foldedAround = [(7, .ofNat 3)] ∧
      (∃ q, (resolve [1, 2] foldedAround)[1]? = some q ∧ q.amount.count = 19) ∧
      (∃ q, (resolve [1, 2] foldedAround)[4]? = some q ∧ q.amount.count = 8) ∧
      total (resolve [1, 2] foldedAround) = 27 := by
  have someone : ([1, 2] : List PlayerId) ≠ [] := by decide
  have fits : total foldedAround ≤ cap := by decide
  have contested : ∃ p ∈ foldedAround, p.isContested [1, 2] = true := by decide
  obtain ⟨back, -, place, -, conserved⟩ :=
    resolve_finds_nearest_heir [1, 2] foldedAround someone fits
  obtain ⟨second, at_second, -, has_second⟩ := place contested 1 ⟨.ofNat 10, [1, 8]⟩ rfl
  obtain ⟨fifth, at_fifth, -, has_fifth⟩ := place contested 4 ⟨.ofNat 6, [2]⟩ rfl
  have refunded : refunds [1, 2] foldedAround = [(7, .ofNat 3)] := back.trans (by decide)
  refine ⟨someone, fits, refunded, ⟨second, at_second, ?_⟩, ⟨fifth, at_fifth, ?_⟩, ?_⟩
  · rw [has_second]
    decide
  · rw [has_fifth]
    decide
  · rw [refunded] at conserved
    have all : total foldedAround = 30 := by decide
    have three : tally ([((7 : PlayerId), Chips.ofNat 3)].map (·.2.count)) = 3 := by decide
    omega

end CardRoom.Pot
