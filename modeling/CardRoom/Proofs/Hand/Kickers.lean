import Mathlib
import CardRoom.Hand.Best
import CardRoom.Proofs.Hand.Rules

/-! # How many ranks decide

The ranks of five cards fall into groups in seven ways, and in each of them the category has as
many deciding ranks as it asks for. Nothing here needs the cards to differ, so the same is true of
the best five of any number of cards.
-/

namespace CardRoom

/-- A ranking has as many ranks as its category asks for, each of which fits into a digit. -/
structure Ranking.WellFormed (r : Ranking) : Prop where
  length : r.kickers.length = r.category.rankCount
  small : ∀ k ∈ r.kickers, k < Score.base

namespace Hand

variable {ranks : List Nat} {cards : List Card}

theorem sizes_ordered (ranks : List Nat) : ((groups ranks).map Group.size).Pairwise (· ≥ ·) :=
  List.pairwise_map.mpr ((groups_ordered ranks).imp fun before => size_le_of_precedes before)

theorem size_pos {n : Nat} (listed : n ∈ (groups ranks).map Group.size) : 0 < n := by
  obtain ⟨g, group, rfl⟩ := List.mem_map.mp listed
  obtain ⟨member, size⟩ := mem_groups.mp group
  rw [size]
  exact List.count_pos_iff.mpr member

/-- The sizes of the groups are a partition of five. -/
theorem sizes_cases (five : ranks.length = 5) :
    (groups ranks).map Group.size ∈
      [[5], [4, 1], [3, 2], [3, 1, 1], [2, 2, 1], [2, 1, 1, 1], [1, 1, 1, 1, 1]] := by
  have ordered := sizes_ordered ranks
  have positive : ∀ n ∈ (groups ranks).map Group.size, 0 < n := fun _ => size_pos
  have all : ((groups ranks).map Group.size).sum = 5 := (sum_sizes ranks).trans five
  generalize (groups ranks).map Group.size = sizes at *
  match sizes with
  | [] => simp at all
  | [a] | [a, b] | [a, b, c] | [a, b, c, d] | [a, b, c, d, e] =>
      simp at ordered positive all ⊢
      omega
  | a :: b :: c :: d :: e :: f :: sizes =>
      simp at positive all
      omega

theorem length_kickers (five : cards.length = 5) :
    (ranking cards).kickers.length = (ranking cards).category.rankCount := by
  have every_rank : (ranksDown cards).length = 5 := (length_ranksDown cards).trans five
  have pattern := sizes_cases every_rank
  have one_each : ((groups (ranksDown cards)).map Group.rank).length =
      ((groups (ranksDown cards)).map Group.size).length := by simp
  unfold ranking
  dsimp only
  generalize (groups (ranksDown cards)).map Group.size = sizes at *
  generalize (groups (ranksDown cards)).map Group.rank = groupRanks at *
  generalize straightTop? (ranksDown cards) = straight
  simp only [List.mem_cons, List.not_mem_nil, or_false] at pattern
  rcases pattern with rfl | rfl | rfl | rfl | rfl | rfl | rfl
  all_goals cases isFlush cards <;> cases straight <;> simp_all [Category.rankCount]

theorem mem_or_eq_three_of_straightTop? {top : Nat} (found : straightTop? ranks = some top) :
    top ∈ ranks ∨ top = 3 := by
  unfold straightTop? at found
  split at found
  · cases found
    exact .inr rfl
  · split at found
    · split at found
      · cases found
        exact .inl List.mem_cons_self
      · cases found
    · cases found

theorem kicker_cases {k : Nat} (listed : k ∈ (ranking cards).kickers) :
    k ∈ cards.map Card.rank ∨ k = 3 := by
  rw [← (ranksDown_perm cards).mem_iff]
  rw [kickers_eq] at listed
  cases reached : (ranking cards).category with
  | straight | straightFlush =>
      rw [reached] at listed
      exact mem_or_eq_three_of_straightTop? (Option.mem_toList.mp listed)
  | flush | highCard =>
      rw [reached] at listed
      exact .inl listed
  | pair | twoPair | threeOfAKind | fullHouse | fourOfAKind =>
      rw [reached] at listed
      exact .inl (mem_groupRanks.mp listed)

theorem rank_lt_base {c : Card} (valid : c.IsValid) : c.rank < Score.base := by
  unfold Card.IsValid Card.deckSize at valid
  unfold Card.rank Score.base
  omega

theorem ranking_wellFormed (five : cards.length = 5) (valid : ∀ c ∈ cards, c.IsValid) :
    (ranking cards).WellFormed where
  length := length_kickers five
  small := by
    intro k listed
    rcases kicker_cases listed with rank | rfl
    · obtain ⟨c, member, rfl⟩ := List.mem_map.mp rank
      exact rank_lt_base (valid c member)
    · decide

/-! ## The best of many -/

theorem strongest?_concat (rankings : List Ranking) (r : Ranking) :
    strongest? (rankings ++ [r]) =
      match strongest? rankings with
      | none => some r
      | some best => if best.score < r.score then some r else some best := by
  rw [strongest?, List.foldl_append]
  rfl

theorem strongest?_spec {rankings : List Ranking} (some_there : rankings ≠ []) :
    ∃ best ∈ rankings, strongest? rankings = some best ∧
      ∀ r ∈ rankings, r.score.points ≤ best.score.points := by
  induction rankings using List.reverseRecOn with
  | nil => exact absurd rfl some_there
  | append_singleton rankings r ih =>
      rw [strongest?_concat]
      by_cases alone : rankings = []
      · subst alone
        exact ⟨r, by simp, rfl, by simp⟩
      · obtain ⟨best, member, found, above⟩ := ih alone
        rw [found]
        by_cases stronger : best.score.points < r.score.points
        · refine ⟨r, by simp, if_pos stronger, ?_⟩
          intro q listed
          rcases List.mem_append.mp listed with earlier | last
          · exact (above q earlier).trans stronger.le
          · rw [List.mem_singleton.mp last]
        · refine ⟨best, List.mem_append_left _ member, if_neg stronger, ?_⟩
          intro q listed
          rcases List.mem_append.mp listed with earlier | last
          · exact above q earlier
          · rw [List.mem_singleton.mp last]
            exact Nat.not_lt.mp stronger

/-- The best of five or more cards is the ranking of five of them, and no five of them have a
higher score. -/
theorem best_spec (enough : handSize ≤ cards.length) (valid : ∀ c ∈ cards, c.IsValid) :
    ∃ five, five.Sublist cards ∧ five.length = handSize ∧ best cards = .ok (ranking five) ∧
      ∀ other, other.Sublist cards → other.length = handSize →
        (ranking other).score ≤ (ranking five).score := by
  have no_choice_missing : (choices handSize cards).map ranking ≠ [] := by
    have first : cards.take handSize ∈ choices handSize cards :=
      mem_choices.mpr ⟨List.take_sublist _ _, List.length_take_of_le enough⟩
    exact List.ne_nil_of_mem (List.mem_map_of_mem first)
  obtain ⟨r, listed, found, above⟩ := strongest?_spec no_choice_missing
  obtain ⟨five, chosen, rfl⟩ := List.mem_map.mp listed
  obtain ⟨sub, length⟩ := mem_choices.mp chosen
  have none_bad : cards.find? (fun c => !decide c.IsValid) = none := by
    apply List.find?_eq_none.mpr
    intro c member
    simp [valid c member]
  refine ⟨five, sub, length, ?_, fun other also_sub also_length => ?_⟩
  · simp only [best, Nat.not_lt.mpr enough, if_false, none_bad, found]
  · exact above _ (List.mem_map_of_mem (mem_choices.mpr ⟨also_sub, also_length⟩))

theorem best_eq_ranking (enough : handSize ≤ cards.length) (valid : ∀ c ∈ cards, c.IsValid) :
    ∃ five, five.Sublist cards ∧ five.length = handSize ∧ best cards = .ok (ranking five) := by
  obtain ⟨five, sub, length, found, -⟩ := best_spec enough valid
  exact ⟨five, sub, length, found⟩

theorem best_wellFormed (enough : handSize ≤ cards.length) (valid : ∀ c ∈ cards, c.IsValid) :
    ∃ r, best cards = .ok r ∧ r.WellFormed := by
  obtain ⟨five, sub, length, found⟩ := best_eq_ranking enough valid
  exact ⟨ranking five, found, ranking_wellFormed length fun c member => valid c (sub.subset member)⟩

end Hand

end CardRoom
