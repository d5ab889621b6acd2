import CardRoom.Hand.Category

/-! # Rankings of hands and scores

The ranking of a hand is its category and the ranks that decide within it, the most important
first. A score is one number in base 15 whose digits are the category and five ranks, missing
ranks being zeros on the right. All scores have the same number of digits, so comparing scores as
numbers compares category first and then rank by rank.
-/

namespace CardRoom

/-- A category with its deciding ranks. -/
structure Ranking where
  category : Category
  kickers : List Nat
  deriving DecidableEq, Repr, Inhabited

/-- The strength of a hand as one number. -/
structure Score where
  points : Nat
  deriving DecidableEq, Repr, Inhabited

namespace Score

/-- The base of the digits, larger than any rank. -/
def base : Nat := 15

def places : Nat := 5

instance : Zero Score := ⟨⟨0⟩⟩

instance : LE Score := ⟨fun a b => a.points ≤ b.points⟩

instance : LT Score := ⟨fun a b => a.points < b.points⟩

instance : Ord Score := ⟨fun a b => compare a.points b.points⟩

instance (a b : Score) : Decidable (a ≤ b) := inferInstanceAs (Decidable (a.points ≤ b.points))

instance (a b : Score) : Decidable (a < b) := inferInstanceAs (Decidable (a.points < b.points))

instance : Max Score := ⟨fun a b => if a ≤ b then b else a⟩

@[ext] theorem ext {a b : Score} (same : a.points = b.points) : a = b := by
  cases a; cases b; simp_all

/-- The number that some digits spell when they follow `top`. -/
def join (top : Nat) (digits : List Nat) : Nat := digits.foldl (fun n digit => n * base + digit) top

/-- The last `n` digits of a number, and what stands before them. -/
def cut : Nat → Nat → Nat × List Nat
  | 0, v => (v, [])
  | n + 1, v =>
    let (top, digits) := cut n (v / base)
    (top, digits ++ [v % base])

/-- The category of a score. A leading digit above the strongest category is read as a high
card. -/
def category (s : Score) : Category :=
  (Category.ofStrength? (cut places s.points).1).getD .highCard

/-- The five ranks of a score, the most important first. -/
def digits (s : Score) : List Nat := (cut places s.points).2

/-- The ranking with the score's category and as many ranks as that category carries. -/
def toRanking (s : Score) : Ranking := ⟨s.category, s.digits.take s.category.rankCount⟩

def description (s : Score) : String := s.category.description

@[simp] theorem length_cut (n v : Nat) : (cut n v).2.length = n := by
  induction n generalizing v with
  | zero => rfl
  | succ n ih => simp [cut, ih]

theorem lt_base_of_mem_cut {n v d : Nat} (mem : d ∈ (cut n v).2) : d < base := by
  induction n generalizing v with
  | zero => cases mem
  | succ n ih =>
    rcases List.mem_append.mp mem with earlier | last
    · exact ih earlier
    · rw [List.mem_singleton.mp last]
      exact Nat.mod_lt v (by decide)

theorem join_cut (n v : Nat) : join (cut n v).1 (cut n v).2 = v := by
  induction n generalizing v with
  | zero => rfl
  | succ n ih =>
    have front : join (cut n (v / base)).1 (cut n (v / base)).2 = v / base := ih (v / base)
    simp only [join] at front
    simp only [cut, join, List.foldl_append, List.foldl_cons, List.foldl_nil, front]
    exact Nat.div_add_mod' v base

/-- What digits spell is cut into the same digits again. -/
theorem cut_join (top : Nat) {digits : List Nat} (small : ∀ d ∈ digits, d < base) :
    cut digits.length (join top digits) = (top, digits) := by
  suffices reversed : ∀ back : List Nat, (∀ d ∈ back, d < base) →
      cut back.length (join top back.reverse) = (top, back.reverse) by
    have := reversed digits.reverse fun d mem => small d (List.mem_reverse.mp mem)
    rwa [List.length_reverse, List.reverse_reverse] at this
  intro back small
  induction back with
  | nil => rfl
  | cons d back ih =>
    have here : d < base := small d List.mem_cons_self
    have spelled : join top (d :: back).reverse = join top back.reverse * base + d := by
      simp [join]
    have front : (join top back.reverse * base + d) / base = join top back.reverse := by
      rw [Nat.mul_comm, Nat.mul_add_div (by decide), Nat.div_eq_of_lt here, Nat.add_zero]
    have last : (join top back.reverse * base + d) % base = d := by
      rw [Nat.mul_comm, Nat.mul_add_mod, Nat.mod_eq_of_lt here]
    rw [spelled, List.length_cons, cut, front, last,
      ih fun e mem => small e (List.mem_cons_of_mem d mem), List.reverse_cons]

@[simp] theorem length_digits (s : Score) : s.digits.length = places := length_cut places s.points

theorem lt_base_of_mem_digits {s : Score} {d : Nat} (mem : d ∈ s.digits) : d < base :=
  lt_base_of_mem_cut mem

end Score

namespace Ranking

/-- The five ranks that a score holds: missing ones are zeros, further ones are left out. -/
def digits (r : Ranking) : List Nat :=
  (List.range Score.places).map fun i => r.kickers.getD i 0

def score (r : Ranking) : Score := ⟨Score.join r.category.strength r.digits⟩

instance : Ord Ranking := ⟨fun a b => compare a.score b.score⟩

@[simp] theorem length_digits (r : Ranking) : r.digits.length = Score.places := by simp [digits]

end Ranking

end CardRoom
