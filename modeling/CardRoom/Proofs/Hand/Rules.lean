import Mathlib
import CardRoom.Proofs.Hand.Groups
import CardRoom.Proofs.Hand.Straights

/-! # The rules of poker

The rules say of each category when a hand belongs to it, and a hand counts as the strongest
category that it belongs to. The ranking of five different cards follows them: a hand of one suit
or with a straight has five different ranks, so at most one of the tests for repeated ranks, for a
suit and for a straight speaks for a strong category at a time, except for the straight flush.
-/

namespace CardRoom

/-- The hand satisfies the rule of the category. -/
def Category.Holds (cards : List Card) (category : Category) : Prop :=
  let ranks := cards.map Card.rank
  match category with
  | .highCard => True
  | .pair => ∃ r, 2 ≤ ranks.count r
  | .twoPair => ∃ r s, r ≠ s ∧ 2 ≤ ranks.count r ∧ 2 ≤ ranks.count s
  | .threeOfAKind => ∃ r, 3 ≤ ranks.count r
  | .straight => ∃ top, Hand.IsStraight ranks top
  | .flush => ∃ suit, ∀ c ∈ cards, c.suit = suit
  | .fullHouse => ∃ r s, r ≠ s ∧ 3 ≤ ranks.count r ∧ 2 ≤ ranks.count s
  | .fourOfAKind => ∃ r, ranks.count r = 4
  | .straightFlush =>
    (∃ top, Hand.IsStraight ranks top) ∧ ∃ suit, ∀ c ∈ cards, c.suit = suit

/-- The ranks decide within the category: the top rank of a straight, and otherwise every rank
once, more frequent ones first and higher ones among those that are equally frequent. -/
def Category.DecidedBy (cards : List Card) (category : Category) (kickers : List Nat) : Prop :=
  let ranks := cards.map Card.rank
  match category with
  | .straight | .straightFlush => ∃ top, Hand.IsStraight ranks top ∧ kickers = [top]
  | _ =>
    (∀ r, r ∈ kickers ↔ r ∈ ranks) ∧
      kickers.Pairwise fun r s =>
        ranks.count s < ranks.count r ∨ ranks.count r = ranks.count s ∧ s < r

namespace Hand

variable {cards : List Card}

theorem ranksDown_perm (cards : List Card) : (ranksDown cards).Perm (cards.map Card.rank) :=
  List.mergeSort_perm _ _

@[simp] theorem length_ranksDown (cards : List Card) : (ranksDown cards).length = cards.length := by
  rw [(ranksDown_perm cards).length_eq, List.length_map]

theorem ranksDown_pairwise (cards : List Card) : (ranksDown cards).Pairwise (· ≥ ·) := by
  refine (List.pairwise_mergeSort ?_ ?_ _).imp fun le => of_decide_eq_true le
  · intro a b c first second
    exact decide_eq_true ((of_decide_eq_true second).trans (of_decide_eq_true first))
  · intro a b
    simp only [Bool.or_eq_true, decide_eq_true_eq]
    omega

theorem isFlush_iff (cards : List Card) :
    isFlush cards = true ↔ ∃ suit, ∀ c ∈ cards, c.suit = suit := by
  cases cards with
  | nil => simp [isFlush]
  | cons first rest =>
      simp only [isFlush, List.all_eq_true, beq_iff_eq]
      constructor
      · intro same
        exact ⟨first.suit, List.forall_mem_cons.mpr ⟨rfl, same⟩⟩
      · rintro ⟨suit, same⟩ c member
        rw [same c (List.mem_cons_of_mem _ member), same first List.mem_cons_self]

theorem nodup_ranks_of_flush (distinct : cards.Nodup) (flush : isFlush cards = true) :
    (cards.map Card.rank).Nodup := by
  obtain ⟨suit, same⟩ := (isFlush_iff cards).mp flush
  refine List.Nodup.map_on ?_ distinct
  intro c first d second rank
  rw [← Card.ofRankSuit_rank_suit c, ← Card.ofRankSuit_rank_suit d, rank, same c first,
    same d second]

theorem count_rank_le (distinct : cards.Nodup) (r : Nat) :
    (cards.map Card.rank).count r ≤ 4 := by
  have alike : ∀ c ∈ cards.filter (·.rank = r), c.rank = r :=
    fun c member => of_decide_eq_true (List.mem_filter.mp member).2
  have suits : ((cards.filter (·.rank = r)).map Card.suit).Nodup := by
    refine List.Nodup.map_on ?_ (distinct.filter _)
    intro c first d second suit
    rw [← Card.ofRankSuit_rank_suit c, ← Card.ofRankSuit_rank_suit d, suit, alike c first,
      alike d second]
  have few : (cards.filter (·.rank = r)).map Card.suit ⊆ List.range 4 := by
    intro suit member
    obtain ⟨c, -, rfl⟩ := List.mem_map.mp member
    exact List.mem_range.mpr (Nat.mod_lt _ (by decide))
  have bound := (List.subperm_of_subset suits few).length_le
  rw [List.length_map, List.length_range, ← List.countP_eq_length_filter] at bound
  rw [List.count, List.countP_map]
  exact bound

/-! ## The order of the tests -/

/-- The category by suit, straight and the sizes of the two largest groups of ranks. -/
def categoryBy (flush straight : Bool) (largest second : Nat) : Category :=
  if flush ∧ straight then .straightFlush
  else if largest = 4 then .fourOfAKind
  else if largest = 3 ∧ second = 2 then .fullHouse
  else if flush then .flush
  else if straight then .straight
  else if largest = 3 then .threeOfAKind
  else if largest = 2 ∧ second = 2 then .twoPair
  else if largest = 2 then .pair
  else .highCard

/-- What a category asks of suit, straight and the sizes of the two largest groups of ranks. -/
def Shows (flush straight : Bool) (largest second : Nat) : Category → Prop
  | .highCard => True
  | .pair => 2 ≤ largest
  | .twoPair => 2 ≤ largest ∧ 2 ≤ second
  | .threeOfAKind => 3 ≤ largest
  | .straight => straight
  | .flush => flush
  | .fullHouse => 3 ≤ largest ∧ 2 ≤ second
  | .fourOfAKind => 4 ≤ largest
  | .straightFlush => straight ∧ flush

theorem categoryBy_shows (flush straight : Bool) (largest second : Nat) :
    Shows flush straight largest second (categoryBy flush straight largest second) := by
  unfold categoryBy
  split_ifs
  all_goals simp_all [Shows]

/-- A suit or a straight leaves no repeated ranks, and five cards leave room for two groups only
where both are small. So the first test that succeeds is the one for the strongest category. -/
theorem strength_le_categoryBy {flush straight : Bool} {largest second : Nat}
    (suited : flush = true → largest ≤ 1) (run : straight = true → largest ≤ 1)
    (le : second ≤ largest) (fits : largest + second ≤ 5) (four : largest ≤ 4) {c : Category}
    (shown : Shows flush straight largest second c) :
    c.strength ≤ (categoryBy flush straight largest second).strength := by
  unfold categoryBy
  split_ifs
  all_goals cases c <;> simp_all [Shows, Category.strength] <;> omega

theorem category_eq (cards : List Card) :
    (ranking cards).category =
      categoryBy (isFlush cards) (straightTop? (ranksDown cards)).isSome
        (largest (ranksDown cards)) (second (ranksDown cards)) := by
  unfold ranking largest second
  dsimp only
  generalize (groups (ranksDown cards)).map Group.size = sizes
  generalize straightTop? (ranksDown cards) = straight
  generalize isFlush cards = flush
  match sizes with
  | [] | [a] | a :: b :: sizes =>
      cases flush <;> cases straight
      all_goals
        simp only [categoryBy, List.getD_cons_zero, List.getD_cons_succ]
        grind

def kickersBy (cards : List Card) : Category → List Nat
  | .straight | .straightFlush => (straightTop? (ranksDown cards)).toList
  | .flush | .highCard => ranksDown cards
  | _ => (groups (ranksDown cards)).map Group.rank

theorem kickers_eq (cards : List Card) :
    (ranking cards).kickers = kickersBy cards (ranking cards).category := by
  unfold ranking
  dsimp only
  split
  all_goals simp_all [kickersBy]

/-! ## Rules and tests -/

@[simp] theorem count_ranksDown (cards : List Card) (r : Nat) :
    (ranksDown cards).count r = (cards.map Card.rank).count r :=
  (ranksDown_perm cards).count_eq r

section

variable (five : cards.length = 5)
include five

theorem straightTop?_ranksDown (top : Nat) :
    straightTop? (ranksDown cards) = some top ↔ IsStraight (cards.map Card.rank) top := by
  have length : (ranksDown cards).length = 5 := (length_ranksDown cards).trans five
  rw [straightTop?_eq_some_iff length (ranksDown_pairwise cards),
    isStraight_perm (ranksDown_perm cards)]

theorem exists_straight_iff :
    (∃ top, IsStraight (cards.map Card.rank) top) ↔
      (straightTop? (ranksDown cards)).isSome = true := by
  rw [Option.isSome_iff_exists]
  exact exists_congr fun top => (straightTop?_ranksDown five top).symm

variable (distinct : cards.Nodup)
include distinct

theorem holds_iff (c : Category) :
    c.Holds cards ↔ Shows (isFlush cards) (straightTop? (ranksDown cards)).isSome
      (largest (ranksDown cards)) (second (ranksDown cards)) c := by
  have straight := exists_straight_iff five
  have flush := isFlush_iff cards
  have repeated : ∀ n, 0 < n → ((∃ r, n ≤ (cards.map Card.rank).count r) ↔
      n ≤ largest (ranksDown cards)) := by
    intro n positive
    simp only [← exists_repeated_iff positive, count_ranksDown]
  have two_repeated : ∀ m, 2 ≤ m →
      ((∃ r s, r ≠ s ∧ m ≤ (cards.map Card.rank).count r ∧ 2 ≤ (cards.map Card.rank).count s) ↔
        m ≤ largest (ranksDown cards) ∧ 2 ≤ second (ranksDown cards)) := by
    intro m le
    simp only [← exists_two_repeated_iff (by omega) le, count_ranksDown]
  cases c with
  | highCard => exact Iff.rfl
  | pair => exact repeated 2 (by omega)
  | twoPair => exact two_repeated 2 le_rfl
  | threeOfAKind => exact repeated 3 (by omega)
  | straight => exact straight
  | flush => exact flush.symm
  | fullHouse => exact two_repeated 3 (by omega)
  | fourOfAKind =>
      refine Iff.trans (exists_congr fun r => ?_) (repeated 4 (by omega))
      have few := count_rank_le distinct r
      omega
  | straightFlush => exact and_congr straight flush.symm

theorem category_holds : (ranking cards).category.Holds cards := by
  rw [holds_iff five distinct, category_eq]
  exact categoryBy_shows ..

theorem strength_le_category {c : Category} (holds : c.Holds cards) :
    c.strength ≤ (ranking cards).category.strength := by
  have length : (ranksDown cards).length = 5 := (length_ranksDown cards).trans five
  have alone : (cards.map Card.rank).Nodup → largest (ranksDown cards) ≤ 1 :=
    fun different => largest_le_one_iff.mpr ((ranksDown_perm cards).nodup_iff.mpr different)
  rw [category_eq]
  refine strength_le_categoryBy ?_ ?_ (second_le_largest _) ?_ ?_
    ((holds_iff five distinct c).mp holds)
  · exact fun flush => alone (nodup_ranks_of_flush distinct flush)
  · intro run
    obtain ⟨top, straight⟩ := (exists_straight_iff five).mpr run
    exact alone (straight.nodup ((List.length_map _).trans five))
  · exact length ▸ largest_add_second_le _
  · by_contra many
    have five_alike : 5 ≤ largest (ranksDown cards) := by omega
    obtain ⟨r, often⟩ := (exists_repeated_iff (by omega)).mpr five_alike
    rw [count_ranksDown] at often
    have few := count_rank_le distinct r
    omega

end

/-! ## The ranks that decide -/

theorem groupRanks_decide (cards : List Card) :
    (∀ r, r ∈ (groups (ranksDown cards)).map Group.rank ↔ r ∈ cards.map Card.rank) ∧
      ((groups (ranksDown cards)).map Group.rank).Pairwise fun r s =>
        (cards.map Card.rank).count s < (cards.map Card.rank).count r ∨
          (cards.map Card.rank).count r = (cards.map Card.rank).count s ∧ s < r := by
  constructor
  · intro r
    rw [mem_groupRanks, (ranksDown_perm cards).mem_iff]
  · simpa only [count_ranksDown] using groupRanks_ordered (ranksDown cards)

theorem ranksDown_decide (different : (cards.map Card.rank).Nodup) :
    (∀ r, r ∈ ranksDown cards ↔ r ∈ cards.map Card.rank) ∧
      (ranksDown cards).Pairwise fun r s =>
        (cards.map Card.rank).count s < (cards.map Card.rank).count r ∨
          (cards.map Card.rank).count r = (cards.map Card.rank).count s ∧ s < r := by
  constructor
  · intro r
    exact (ranksDown_perm cards).mem_iff
  · have apart : (ranksDown cards).Nodup := (ranksDown_perm cards).nodup_iff.mpr different
    refine ((ranksDown_pairwise cards).and apart).imp_of_mem ?_
    rintro r s first second ⟨le, ne⟩
    have once := List.count_eq_one_of_mem different ((ranksDown_perm cards).mem_iff.mp first)
    have also_once := List.count_eq_one_of_mem different ((ranksDown_perm cards).mem_iff.mp second)
    omega

theorem category_decidedBy (five : cards.length = 5) (distinct : cards.Nodup) :
    (ranking cards).category.DecidedBy cards (ranking cards).kickers := by
  have holds := category_holds five distinct
  rw [kickers_eq]
  cases reached : (ranking cards).category with
  | highCard =>
      -- A repeated rank would have made the hand a pair.
      refine ranksDown_decide (List.nodup_iff_count_le_one.mpr fun r => ?_)
      by_contra repeated
      have pair : Category.pair.Holds cards := ⟨r, by omega⟩
      have weaker := strength_le_category five distinct pair
      rw [reached] at weaker
      exact absurd weaker (by decide)
  | flush =>
      rw [reached] at holds
      exact ranksDown_decide (nodup_ranks_of_flush distinct ((isFlush_iff cards).mpr holds))
  | straight =>
      rw [reached] at holds
      obtain ⟨top, straight⟩ := holds
      refine ⟨top, straight, ?_⟩
      rw [kickersBy, (straightTop?_ranksDown five top).mpr straight, Option.toList_some]
  | straightFlush =>
      rw [reached] at holds
      obtain ⟨⟨top, straight⟩, -⟩ := holds
      refine ⟨top, straight, ?_⟩
      rw [kickersBy, (straightTop?_ranksDown five top).mpr straight, Option.toList_some]
  | pair | twoPair | threeOfAKind | fullHouse | fourOfAKind => exact groupRanks_decide cards

/-- The ranking of five different cards is the strongest category whose rule they satisfy, with
the ranks that decide within it. -/
theorem ranking_follows_rules (five : cards.length = 5) (distinct : cards.Nodup) :
    (ranking cards).category.Holds cards ∧
      (∀ c : Category, c.Holds cards → c.strength ≤ (ranking cards).category.strength) ∧
      (ranking cards).category.DecidedBy cards (ranking cards).kickers :=
  ⟨category_holds five distinct, fun _ holds => strength_le_category five distinct holds,
    category_decidedBy five distinct⟩

/-- Three aces and two fours. -/
def acesFull : List Card := [⟨8⟩, ⟨48⟩, ⟨10⟩, ⟨49⟩, ⟨51⟩]

theorem ranking_follows_rules_acesFull :
    (acesFull.length = 5 ∧ acesFull.Nodup) ∧
      (ranking acesFull).category.Holds acesFull ∧
      Category.fullHouse.strength ≤ (ranking acesFull).category.strength ∧
      (ranking acesFull).category.DecidedBy acesFull (ranking acesFull).kickers := by
  have five : acesFull.length = 5 := rfl
  have distinct : acesFull.Nodup := by decide
  have full_house : Category.fullHouse.Holds acesFull :=
    ⟨12, 2, by decide, by decide, by decide⟩
  obtain ⟨holds, strongest, decided⟩ := ranking_follows_rules five distinct
  exact ⟨⟨five, distinct⟩, holds, strongest .fullHouse full_house, decided⟩

end Hand

end CardRoom
