import Mathlib
import CardRoom.Proofs.Hand.Judging

/-! # Order and suits

The ranking of five cards is fixed by their ranks, from the highest down, and by whether they are of
one suit. Neither changes when the cards are laid in another order or when suits change places. Of
more cards, any five have counterparts after such a change, so the best of them have the same score
and, as scores stand for rankings, the same ranking.
-/

namespace CardRoom

namespace Card

variable {c d : Card}

theorem suit_lt (c : Card) : c.suit < 4 := Nat.mod_lt _ (by decide)

/-- The card of the same rank in the suit that its own becomes. -/
def resuit (become : Equiv.Perm (Fin 4)) (c : Card) : Card :=
  ofRankSuit c.rank (become ⟨c.suit, c.suit_lt⟩)

section

variable (become : Equiv.Perm (Fin 4))

@[simp] theorem rank_resuit (c : Card) : (c.resuit become).rank = c.rank :=
  rank_ofRankSuit (Fin.isLt _)

theorem suit_resuit (c : Card) : (c.resuit become).suit = become ⟨c.suit, c.suit_lt⟩ :=
  suit_ofRankSuit (Fin.isLt _)

theorem suit_resuit_inj : (c.resuit become).suit = (d.resuit become).suit ↔ c.suit = d.suit := by
  rw [suit_resuit, suit_resuit, Fin.val_inj, become.apply_eq_iff_eq, Fin.mk.injEq]

@[simp] theorem resuit_symm_resuit (c : Card) : (c.resuit become).resuit become.symm = c := by
  have suit : (⟨(c.resuit become).suit, suit_lt _⟩ : Fin 4) = become ⟨c.suit, c.suit_lt⟩ :=
    Fin.ext (suit_resuit become c)
  rw [resuit, suit, Equiv.symm_apply_apply, rank_resuit, ofRankSuit_rank_suit]

theorem resuit_symm_comp_resuit : resuit become.symm ∘ resuit become = id :=
  funext fun c => resuit_symm_resuit become c

theorem isValid_iff_rank_lt : c.IsValid ↔ c.rank < 13 := by
  unfold IsValid deckSize rank
  omega

@[simp] theorem isValid_resuit : (c.resuit become).IsValid ↔ c.IsValid := by
  rw [isValid_iff_rank_lt, isValid_iff_rank_lt, rank_resuit]

end

end Card

namespace Hand

variable {cards others : List Card}

/-! ## Five cards -/

theorem isFlush_iff_alike (cards : List Card) :
    isFlush cards = true ↔ ∀ c ∈ cards, ∀ d ∈ cards, c.suit = d.suit := by
  rw [isFlush_iff]
  constructor
  · rintro ⟨suit, same⟩ c first d second
    rw [same c first, same d second]
  · intro alike
    cases cards with
    | nil => exact ⟨0, by simp⟩
    | cons first rest => exact ⟨first.suit, fun c member => alike c member first List.mem_cons_self⟩

theorem isFlush_of_perm (same : cards.Perm others) : isFlush cards = isFlush others := by
  rw [Bool.eq_iff_iff, isFlush_iff_alike, isFlush_iff_alike]
  simp only [same.mem_iff]

theorem isFlush_resuit (become : Equiv.Perm (Fin 4)) (cards : List Card) :
    isFlush (cards.map (Card.resuit become)) = isFlush cards := by
  rw [Bool.eq_iff_iff, isFlush_iff_alike, isFlush_iff_alike]
  simp only [List.forall_mem_map, Card.suit_resuit_inj]

/-- Sorting brings equal ranks into one order. -/
theorem ranksDown_of_perm (same : (cards.map Card.rank).Perm (others.map Card.rank)) :
    ranksDown cards = ranksDown others := by
  have sorted : (ranksDown cards).Perm (ranksDown others) :=
    (ranksDown_perm cards).trans (same.trans (ranksDown_perm others).symm)
  exact List.Perm.eq_of_pairwise (fun a b _ _ above below => Nat.le_antisymm below above)
    (ranksDown_pairwise cards) (ranksDown_pairwise others) sorted

theorem ranking_congr (suits : isFlush cards = isFlush others)
    (ranks : (cards.map Card.rank).Perm (others.map Card.rank)) :
    ranking cards = ranking others := by
  unfold ranking
  rw [suits, ranksDown_of_perm ranks]

theorem ranking_of_perm (same : cards.Perm others) : ranking cards = ranking others :=
  ranking_congr (isFlush_of_perm same) (same.map Card.rank)

theorem ranking_resuit (become : Equiv.Perm (Fin 4)) (cards : List Card) :
    ranking (cards.map (Card.resuit become)) = ranking cards := by
  refine ranking_congr (isFlush_resuit become cards) (List.Perm.of_eq ?_)
  rw [List.map_map]
  exact List.map_congr_left fun c _ => Card.rank_resuit become c

/-! ## More cards -/

/-- The other cards are these in some order, once each suit has become another one. -/
def Recast (become : Equiv.Perm (Fin 4)) (cards others : List Card) : Prop :=
  others.Perm (cards.map (Card.resuit become))

section

variable {become : Equiv.Perm (Fin 4)} (recast : Recast become cards others)
include recast

theorem Recast.symm : Recast become.symm others cards := by
  have back := recast.map (Card.resuit become.symm)
  rw [List.map_map, Card.resuit_symm_comp_resuit, List.map_id] at back
  exact back.symm

theorem Recast.isJudgeable (fit : IsJudgeable cards) : IsJudgeable others := by
  constructor
  · rw [recast.length_eq, List.length_map]
    exact fit.1
  · intro c member
    obtain ⟨d, listed, rfl⟩ := List.mem_map.mp (recast.mem_iff.mp member)
    exact (Card.isValid_resuit become).mpr (fit.2 d listed)

/-- Cards chosen before the change have counterparts after it. -/
theorem Recast.exists_counterpart {five : List Card} (sub : five.Sublist cards) :
    ∃ counterpart, counterpart.Sublist others ∧ counterpart.length = five.length ∧
      ranking counterpart = ranking five := by
  obtain ⟨counterpart, same, also_sub⟩ :=
    (List.Perm.symm recast).subperm_left.mp (sub.map (Card.resuit become)).subperm
  refine ⟨counterpart, also_sub, ?_, ?_⟩
  · rw [same.length_eq, List.length_map]
  · rw [ranking_of_perm same, ranking_resuit]

theorem Recast.score_le (fit : IsJudgeable cards) {r s : Ranking} (found : best cards = .ok r)
    (also_found : best others = .ok s) : r.score ≤ s.score := by
  have also_fit := recast.isJudgeable fit
  obtain ⟨five, sub, length, is_best, -⟩ := best_spec fit.1 fit.2
  obtain ⟨other, -, -, also_best, above⟩ := best_spec also_fit.1 also_fit.2
  obtain ⟨counterpart, also_sub, same_length, same⟩ := recast.exists_counterpart sub
  obtain rfl : r = ranking five := Except.ok.inj (found.symm.trans is_best)
  obtain rfl : s = ranking other := Except.ok.inj (also_found.symm.trans also_best)
  rw [← same]
  exact above counterpart also_sub (same_length.trans length)

end

/-- The best of some cards does not depend on the order of the cards or on which suit is which. -/
theorem best_ignores_order_and_suits {become : Equiv.Perm (Fin 4)} (fit : IsJudgeable cards)
    (recast : Recast become cards others) : ∃ r, best cards = .ok r ∧ best others = .ok r := by
  have also_fit := recast.isJudgeable fit
  obtain ⟨r, found, well⟩ := best_wellFormed fit.1 fit.2
  obtain ⟨s, also_found, also_well⟩ := best_wellFormed also_fit.1 also_fit.2
  have points : r.score.points = s.score.points :=
    Nat.le_antisymm (recast.score_le fit found also_found)
      (recast.symm.score_le also_fit also_found found)
  obtain rfl : r = s := (Ranking.compare_eq_iff well also_well).mp (Nat.compare_eq_eq.mpr points)
  exact ⟨r, found, also_found⟩

/-- A flush of hearts among seven cards. -/
def heartFlush : List Card := [⟨50⟩, ⟨48⟩, ⟨38⟩, ⟨37⟩, ⟨30⟩, ⟨18⟩, ⟨6⟩]

/-- The same from the last card to the first, with hearts for spades and spades for hearts. -/
def spadeFlush : List Card := [⟨7⟩, ⟨19⟩, ⟨31⟩, ⟨37⟩, ⟨39⟩, ⟨48⟩, ⟨51⟩]

theorem best_ignores_order_and_suits_heartFlush :
    IsJudgeable heartFlush ∧ Recast (Equiv.swap 2 3) heartFlush spadeFlush ∧
      ∃ r, best heartFlush = .ok r ∧ best spadeFlush = .ok r := by
  have fit : IsJudgeable heartFlush := by decide
  have recast : Recast (Equiv.swap 2 3) heartFlush spadeFlush := by
    unfold Recast
    decide
  exact ⟨fit, recast, best_ignores_order_and_suits fit recast⟩

/-- The pairs among the seven cards do not count beside the flush. -/
example : best heartFlush = .ok ⟨.flush, [12, 9, 7, 4, 1]⟩ := by cbv

end Hand

end CardRoom
