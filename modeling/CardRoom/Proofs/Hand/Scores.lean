import Mathlib
import CardRoom.Proofs.Hand.Kickers

/-! # Scores stand for rankings

Scores have equally many digits, so they compare as their digits do from the left. Rankings of one
category have equally many ranks, so the zeros behind them decide nothing. Thus scores compare as
categories and then ranks do, and a ranking is found again in its score.
-/

namespace CardRoom

theorem Category.rankCount_le (c : Category) : c.rankCount ≤ Score.places := by
  cases c <;> decide

theorem Category.ofStrength?_of_lt {n : Nat} (below : n < 9) :
    ∃ c, Category.ofStrength? n = some c ∧ c.strength = n := by
  interval_cases n
  all_goals exact ⟨_, rfl, rfl⟩

/-- Lists of one length compare the same when more is written behind both. -/
theorem compare_append {xs ys : List Nat} (aligned : xs.length = ys.length) (zs : List Nat) :
    compare (xs ++ zs) (ys ++ zs) = compare xs ys := by
  induction xs generalizing ys with
  | nil =>
      obtain rfl := List.length_eq_zero_iff.mp aligned.symm
      exact Std.ReflCmp.compare_self
  | cons x xs ih =>
      cases ys with
      | nil => simp at aligned
      | cons y ys =>
          simp only [List.cons_append, List.compare_cons_cons, ih (Nat.succ.inj aligned)]

namespace Score

theorem compare_digit {d e : Nat} (first : d < base) (second : e < base) (t u : Nat) :
    compare (t * base + d) (u * base + e) = (compare t u).then (compare d e) := by
  unfold base at *
  rcases Nat.lt_trichotomy t u with less | rfl | more
  · rw [Nat.compare_eq_lt.mpr less, Nat.compare_eq_lt.mpr (by omega)]
    rfl
  · rw [Nat.compare_eq_eq.mpr rfl, Ordering.eq_then]
    rcases Nat.lt_trichotomy d e with less | rfl | more
    · rw [Nat.compare_eq_lt.mpr less, Nat.compare_eq_lt.mpr (by omega)]
    · rw [Nat.compare_eq_eq.mpr rfl, Nat.compare_eq_eq.mpr rfl]
    · rw [Nat.compare_eq_gt.mpr more, Nat.compare_eq_gt.mpr (by omega)]
  · rw [Nat.compare_eq_gt.mpr more, Nat.compare_eq_gt.mpr (by omega)]
    rfl

/-- Numbers with equally many digits compare as what leads does, and then digit by digit. -/
theorem compare_join {ds es : List Nat} (aligned : ds.length = es.length)
    (first : ∀ d ∈ ds, d < base) (second : ∀ e ∈ es, e < base) (t u : Nat) :
    compare (join t ds) (join u es) = (compare t u).then (compare ds es) := by
  induction ds generalizing es t u with
  | nil =>
      obtain rfl := List.length_eq_zero_iff.mp aligned.symm
      simp [join]
  | cons d ds ih =>
      cases es with
      | nil => simp at aligned
      | cons e es =>
          obtain ⟨small, later⟩ := List.forall_mem_cons.mp first
          obtain ⟨also_small, also_later⟩ := List.forall_mem_cons.mp second
          have rest := ih (Nat.succ.inj aligned) later also_later (t * base + d) (u * base + e)
          rw [compare_digit small also_small, Ordering.then_assoc,
            ← List.compare_cons_cons] at rest
          exact rest

theorem fst_cut (n v : Nat) : (cut n v).1 = v / base ^ n := by
  induction n generalizing v with
  | zero => simp [cut]
  | succ n ih =>
      simp only [cut, ih]
      rw [Nat.div_div_eq_div_mul, Nat.pow_succ']

/-- A score that a ranking may have: it begins with the strength of a category, and behind the
ranks of that category there are only zeros. -/
structure WellFormed (s : Score) : Prop where
  points_lt : s.points < 9 * 15 ^ 5
  padded : ∀ d ∈ s.digits.drop s.category.rankCount, d = 0

theorem strength_category {s : Score} (below : s.points < 9 * 15 ^ 5) :
    s.category.strength = (cut places s.points).1 := by
  have leading : (cut places s.points).1 < 9 := by
    rw [fst_cut]
    unfold base places
    omega
  obtain ⟨c, found, strength⟩ := Category.ofStrength?_of_lt leading
  rw [category, found, Option.getD_some, strength]

theorem wellFormed_toRanking (s : Score) : s.toRanking.WellFormed where
  length := by
    refine List.length_take_of_le ?_
    rw [length_digits]
    exact s.category.rankCount_le
  small := fun _ listed => lt_base_of_mem_digits (List.mem_of_mem_take listed)

end Score

namespace Ranking

variable {r a b : Ranking}

theorem digits_eq_append (few : r.kickers.length ≤ Score.places) :
    r.digits = r.kickers ++ List.replicate (Score.places - r.kickers.length) 0 := by
  apply List.ext_getElem?
  intro i
  simp only [digits, List.getElem?_map, List.getElem?_append, List.getElem?_replicate]
  by_cases listed : i < r.kickers.length
  · have place : i < Score.places := listed.trans_le few
    simp [listed, place]
  · by_cases place : i < Score.places
    · have padding : i - r.kickers.length < Score.places - r.kickers.length := by omega
      simp [listed, place, padding]
    · have beyond : ¬ i - r.kickers.length < Score.places - r.kickers.length := by omega
      simp [listed, place, beyond]

namespace WellFormed

variable (well : r.WellFormed)
include well

theorem length_le : r.kickers.length ≤ Score.places := well.length ▸ r.category.rankCount_le

theorem digits_small : ∀ d ∈ r.digits, d < Score.base := by
  rw [digits_eq_append well.length_le]
  intro d listed
  rcases List.mem_append.mp listed with kicker | padding
  · exact well.small d kicker
  · rw [List.eq_of_mem_replicate padding]
    decide

theorem cut_score : Score.cut Score.places r.score.points = (r.category.strength, r.digits) := by
  have back := Score.cut_join r.category.strength well.digits_small
  rwa [length_digits] at back

theorem category_score : r.score.category = r.category := by
  rw [Score.category, well.cut_score, Category.ofStrength?_strength, Option.getD_some]

theorem toRanking_score : r.score.toRanking = r := by
  have digits : r.score.digits = r.digits := congrArg Prod.snd well.cut_score
  rw [Score.toRanking, well.category_score, digits, digits_eq_append well.length_le,
    ← well.length, List.take_left]

theorem score : r.score.WellFormed where
  points_lt := by
    have leading := congrArg Prod.fst well.cut_score
    have strong := r.category.strength_lt
    rw [Score.fst_cut] at leading
    unfold Score.base Score.places at leading
    omega
  padded := by
    have digits : r.score.digits = r.digits := congrArg Prod.snd well.cut_score
    intro d listed
    rw [well.category_score, digits, digits_eq_append well.length_le, ← well.length,
      List.drop_left] at listed
    exact List.eq_of_mem_replicate listed

end WellFormed

theorem compare_score (first : a.WellFormed) (second : b.WellFormed) :
    compare a.score b.score =
      (compare a.category b.category).then (compare a.kickers b.kickers) := by
  have digits := Score.compare_join (a.length_digits.trans b.length_digits.symm)
    first.digits_small second.digits_small a.category.strength b.category.strength
  refine Eq.trans digits ?_
  show (compare a.category b.category).then _ = _
  by_cases same : a.category = b.category
  · have aligned : a.kickers.length = b.kickers.length := by
      rw [first.length, second.length, same]
    rw [digits_eq_append first.length_le, digits_eq_append second.length_le, aligned,
      compare_append aligned]
  · have apart : a.category.strength ≠ b.category.strength :=
      fun equal => same (Category.strength_injective equal)
    show (compare a.category.strength b.category.strength).then _ =
      (compare a.category.strength b.category.strength).then _
    rcases Nat.lt_or_gt_of_ne apart with less | more
    · rw [Nat.compare_eq_lt.mpr less]
      rfl
    · rw [Nat.compare_eq_gt.mpr more]
      rfl

theorem compare_eq_iff (first : a.WellFormed) (second : b.WellFormed) :
    compare a b = .eq ↔ a = b := by
  constructor
  · intro tie
    have same : a.score = b.score := Score.ext (Nat.compare_eq_eq.mp tie)
    rw [← first.toRanking_score, same, second.toRanking_score]
  · rintro rfl
    exact Nat.compare_eq_eq.mpr rfl

end Ranking

namespace Score.WellFormed

variable {s : Score} (well : s.WellFormed)
include well

theorem digits_toRanking : s.toRanking.digits = s.digits := by
  have zeros : s.digits.drop s.category.rankCount =
      List.replicate (places - s.category.rankCount) 0 := by
    rw [List.eq_replicate_of_mem well.padded, List.length_drop, length_digits]
  have ranking := s.wellFormed_toRanking
  have length : s.toRanking.kickers.length = s.category.rankCount := ranking.length
  rw [Ranking.digits_eq_append ranking.length_le, length, ← zeros]
  exact List.take_append_drop _ _

theorem score_toRanking : s.toRanking.score = s := by
  apply Score.ext
  show join s.category.strength s.toRanking.digits = s.points
  rw [well.digits_toRanking, strength_category well.points_lt]
  exact join_cut places s.points

end Score.WellFormed

namespace Ranking

/-- The best of five or more cards is well-formed, well-formed rankings compare by their scores as
by category and then by rank, and they correspond to the well-formed scores one to one. -/
theorem score_represents :
    (∀ cards : List Card, Hand.handSize ≤ cards.length → (∀ c ∈ cards, c.IsValid) →
      ∃ r, Hand.best cards = .ok r ∧ r.WellFormed) ∧
    (∀ a b : Ranking, a.WellFormed → b.WellFormed →
      compare a.score b.score =
        (compare a.category b.category).then (compare a.kickers b.kickers) ∧
      compare a b = compare a.score b.score ∧
      (compare a b = .eq ↔ a = b)) ∧
    (∀ r : Ranking, r.WellFormed → r.score.WellFormed ∧ r.score.toRanking = r) ∧
    ∀ s : Score, s.WellFormed → s.toRanking.WellFormed ∧ s.toRanking.score = s :=
  ⟨fun _ enough valid => Hand.best_wellFormed enough valid,
    fun _ _ first second => ⟨compare_score first second, rfl, compare_eq_iff first second⟩,
    fun _ well => ⟨well.score, well.toRanking_score⟩,
    fun s well => ⟨s.wellFormed_toRanking, well.score_toRanking⟩⟩

/-- Five cards of one rank, which no deck has. -/
def fiveAces : List Card := [⟨48⟩, ⟨49⟩, ⟨50⟩, ⟨51⟩, ⟨51⟩]

def pairOfAces : Ranking := ⟨.pair, [12, 5, 4, 2]⟩

def threesAndTwos : Ranking := ⟨.twoPair, [1, 0, 2]⟩

theorem score_represents_aces :
    ((Hand.handSize ≤ fiveAces.length ∧ ∀ c ∈ fiveAces, c.IsValid) ∧
      pairOfAces.WellFormed ∧ threesAndTwos.WellFormed ∧ threesAndTwos.score.WellFormed) ∧
    (∃ r, Hand.best fiveAces = .ok r ∧ r.WellFormed) ∧
    compare pairOfAces threesAndTwos = .lt ∧
    (compare pairOfAces threesAndTwos = .eq ↔ pairOfAces = threesAndTwos) ∧
    pairOfAces.score.toRanking = pairOfAces ∧
    threesAndTwos.score.toRanking.score = threesAndTwos.score := by
  obtain ⟨best_ranks, order, back, forth⟩ := score_represents
  have enough : Hand.handSize ≤ fiveAces.length := by decide
  have valid : ∀ c ∈ fiveAces, c.IsValid := by decide
  have first : pairOfAces.WellFormed := ⟨rfl, by decide⟩
  have second : threesAndTwos.WellFormed := ⟨rfl, by decide⟩
  have score := (back _ second).1
  obtain ⟨lexical, by_score, tie⟩ := order _ _ first second
  have lower : compare pairOfAces threesAndTwos = .lt := by
    rw [by_score, lexical]
    rfl
  exact ⟨⟨⟨enough, valid⟩, first, second, score⟩, best_ranks _ enough valid, lower, tie,
    (back _ first).2, (forth _ score).2⟩

end Ranking

end CardRoom
