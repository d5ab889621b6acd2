import Mathlib
import CardRoom.Tally

/-! # Tallies over lists

A tally is an ordinary sum, so what is known of sums carries over. What the rules about
amounts need beside that is how a tally changes when one entry of a list does.
-/

namespace CardRoom

theorem tally_eq_sum (ns : List Nat) : tally ns = ns.sum := by
  induction ns with
  | nil => rfl
  | cons n ns ih => rw [tally_cons, ih, List.sum_cons]

theorem le_tally {ns : List Nat} {n : Nat} (mem : n ∈ ns) : n ≤ tally ns := by
  rw [tally_eq_sum]
  exact List.le_sum_of_mem mem

theorem tally_perm {ns ms : List Nat} (same : ns.Perm ms) : tally ns = tally ms := by
  rw [tally_eq_sum, tally_eq_sum, same.sum_eq]

theorem tally_eq_sum_range (ns : List Nat) :
    tally ns = ((List.range ns.length).map fun i => ns.getD i 0).sum := by
  have entries : (List.range ns.length).map (fun i => ns.getD i 0) = ns := by
    apply List.ext_getElem
    · simp
    · intro i _ inside
      simp [inside]
  rw [entries, tally_eq_sum]

/-- Of two lists with one tally, where an entry is less in the second another one is more. -/
theorem exists_lt_of_tally_eq {ms ns : List Nat} {i m n : Nat} (length : ms.length = ns.length)
    (same : tally ms = tally ns) (here : ms[i]? = some m) (there : ns[i]? = some n) (less : n < m) :
    ∃ j x y : Nat, ms[j]? = some x ∧ ns[j]? = some y ∧ x < y := by
  by_contra nowhere
  have inside : i < ns.length := (List.getElem?_eq_some_iff.mp there).1
  have fewer : tally ns < tally ms := by
    rw [tally_eq_sum_range, tally_eq_sum_range, length]
    apply List.sum_lt_sum
    · intro j member
      have second := List.mem_range.mp member
      have first : j < ms.length := length.symm ▸ second
      rw [List.getD_eq_getElem _ _ second, List.getD_eq_getElem _ _ first]
      by_contra more
      exact nowhere ⟨j, ms[j], ns[j], List.getElem?_eq_getElem first,
        List.getElem?_eq_getElem second, Nat.not_le.mp more⟩
    · refine ⟨i, List.mem_range.mpr inside, ?_⟩
      rwa [List.getD_eq_getElem?_getD, List.getD_eq_getElem?_getD, here, there]
  omega

variable {α β : Type}

theorem tally_flatMap (g : β → Nat) (f : α → List β) (xs : List α) :
    tally ((xs.flatMap f).map g) = tally (xs.map fun x => tally ((f x).map g)) := by
  induction xs with
  | nil => rfl
  | cons x xs ih => simp only [List.flatMap_cons, List.map_append, tally_append, ih, List.map_cons,
      tally_cons]

theorem tally_const (c : Nat) (xs : List α) : tally (xs.map fun _ => c) = c * xs.length := by
  rw [tally_eq_sum, List.map_const', List.sum_replicate, smul_eq_mul, Nat.mul_comm]

theorem tally_le_tally {f g : α → Nat} {xs : List α} (le : ∀ x ∈ xs, f x ≤ g x) :
    tally (xs.map f) ≤ tally (xs.map g) := by
  rw [tally_eq_sum, tally_eq_sum]
  exact List.sum_le_sum le

theorem tally_filter (p : α → Bool) (g : α → Nat) (xs : List α) :
    tally ((xs.filter p).map g) = tally (xs.map fun x => if p x then g x else 0) := by
  induction xs with
  | nil => rfl
  | cons x xs ih => cases holds : p x <;> simp [holds, ih]

theorem tally_filter_le (p : α → Bool) (g : α → Nat) (xs : List α) :
    tally ((xs.filter p).map g) ≤ tally (xs.map g) := by
  rw [tally_eq_sum, tally_eq_sum]
  exact (List.filter_sublist.map _).sum_le_sum fun _ _ => Nat.zero_le _

theorem tally_modify (g : α → Nat) (f : α → α) {xs : List α} {i : Nat} {x : α}
    (here : xs[i]? = some x) :
    tally ((xs.modify i f).map g) + g x = tally (xs.map g) + g (f x) := by
  induction xs generalizing i with
  | nil => simp at here
  | cons y ys ih =>
      cases i with
      | zero =>
          obtain rfl : y = x := by simpa using here
          simp only [List.modify_zero_cons, List.map_cons, tally_cons]
          omega
      | succ i =>
          have later := ih (by simpa using here)
          simp only [List.modify_succ_cons, List.map_cons, tally_cons]
          omega

end CardRoom
