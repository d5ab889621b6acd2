import Mathlib
import CardRoom.Pot.Breakdown
import CardRoom.Proofs.Pot.Layers

/-! # A breakdown agrees with the layers

Going up the sorted amounts, as many amounts are left as players reach the next level. So the
side pots are the layers that at least two players reached, without the lowest one, and the main
pot holds the lowest, what one player put in beyond all others, and what nobody put in.
-/

namespace CardRoom

open SidePot

namespace SidePot

/-- The layers that at least two players reached. -/
def sharedLayers (contributions : Contributions) : List SidePot :=
  (layers contributions).filter (2 ≤ ·.players.length)

/-- The top layer, if a single player reached it. -/
def loneLayer? (contributions : Contributions) : Option SidePot :=
  (layers contributions).getLast?.filter (·.players.length = 1)

/-- Layers of which only the top one may have a single player. -/
structure Topped (cut shared : List SidePot) (lone : Option SidePot) : Prop where
  split : cut = shared ++ lone.toList
  several : ∀ layer ∈ shared, 2 ≤ layer.players.length
  single : ∀ layer ∈ lone, layer.players.length = 1

namespace Topped

variable {cut shared : List SidePot} {lone : Option SidePot} {layer : SidePot}

theorem cons (topped : Topped cut shared lone) (several : 2 ≤ layer.players.length) :
    Topped (layer :: cut) (layer :: shared) lone where
  split := by rw [topped.split, List.cons_append]
  several := by simpa using ⟨several, topped.several⟩
  single := topped.single

theorem filter_eq (topped : Topped cut shared lone) :
    cut.filter (2 ≤ ·.players.length) = shared := by
  have all : shared.filter (2 ≤ ·.players.length) = shared :=
    List.filter_eq_self.mpr fun layer member => decide_eq_true (topped.several layer member)
  have none_left : lone.toList.filter (2 ≤ ·.players.length) = [] := by
    apply List.filter_eq_nil_iff.mpr
    intro layer member
    have alone := topped.single layer (Option.mem_toList.mp member)
    simp [alone]
  rw [topped.split, List.filter_append, all, none_left, List.append_nil]

theorem getLast?_eq (topped : Topped cut shared lone) :
    cut.getLast?.filter (·.players.length = 1) = lone := by
  rw [topped.split]
  cases lone with
  | some layer => simp [topped.single layer rfl]
  | none =>
      cases last : shared.getLast? with
      | none => simp [last]
      | some layer =>
          have several := topped.several layer (List.mem_of_getLast? last)
          have many : layer.players.length ≠ 1 := by omega
          simp [last, many]

theorem tally_eq (topped : Topped cut shared lone) :
    tally (cut.map (·.amount.count)) =
      tally (shared.map (·.amount.count)) + lone.elim 0 (·.amount.count) := by
  rw [topped.split, List.map_append, tally_append]
  cases lone <;> rfl

end Topped

/-! ## Counting who reaches a level -/

/-- As many amounts are left as entries reach a level. -/
def Counted (contributions : Contributions) (below : Chips) (amounts : List Chips) : Prop :=
  ∀ level, below < level → amounts.countP (level ≤ ·) = contributions.countP (level ≤ ·.2)

variable {contributions : Contributions} {below level : Chips} {amounts rest : List Chips}

theorem Counted.start (contributions : Contributions) :
    Counted contributions 0
      (((contributions.map Prod.snd).filter (· ≠ 0)).mergeSort fun a b => decide (a ≤ b)) := by
  intro level positive
  rw [(List.mergeSort_perm _ _).countP_eq, List.countP_filter, List.countP_map]
  apply List.countP_congr
  intro e _
  simp only [Function.comp_apply, Bool.and_eq_true, decide_eq_true_eq, and_iff_left_iff_imp]
  rintro reached nothing
  rw [Chips.le_iff, nothing] at reached
  exact absurd reached (Nat.not_le_of_lt positive)

theorem Counted.tail (counted : Counted contributions below (level :: rest))
    (le : below ≤ level) : Counted contributions level rest := by
  intro higher above
  have head : ¬ higher ≤ level := Nat.not_le_of_lt above
  rw [← counted higher (Nat.lt_of_le_of_lt le above),
    List.countP_cons_of_neg (by simpa using head)]

theorem Counted.length_players (counted : Counted contributions below (level :: rest))
    (remaining : Remaining contributions below (level :: rest)) (step : below < level) :
    (between contributions below level).players.length = rest.length + 1 := by
  have all : ∀ a ∈ level :: rest, decide (level ≤ a) = true := by
    intro a member
    rcases List.mem_cons.mp member with rfl | later
    · exact decide_eq_true (Nat.le_refl _)
    · exact decide_eq_true (List.rel_of_pairwise_cons remaining.tail.ascending later)
  rw [between, List.length_map, ← List.countP_eq_length_filter, ← counted level step,
    List.countP_eq_length.mpr all, List.length_cons]

/-- The layers above a level are those whose amounts a breakdown finds there, and at most one
more on top that a single player reached. -/
theorem above_topped (remaining : Remaining contributions below amounts)
    (counted : Counted contributions below amounts) :
    ∃ shared lone, Topped (above contributions below amounts) shared lone ∧
      Breakdown.layerAmounts below amounts = shared.map SidePot.amount := by
  induction amounts generalizing below with
  | nil => exact ⟨[], none, ⟨rfl, by simp, by simp⟩, rfl⟩
  | cons level rest ih =>
      obtain ⟨shared, lone, topped, found⟩ :=
        ih remaining.tail (counted.tail remaining.below_le)
      unfold above Breakdown.layerAmounts
      by_cases same : level = below
      · subst same
        have flat : level - level = 0 := Chips.ext (Nat.sub_self _)
        rw [if_pos rfl, if_neg (by simp [flat])]
        exact ⟨shared, lone, topped, found⟩
      · have step := remaining.below_lt same
        have rises : level - below ≠ 0 := by
          intro flat
          exact absurd (Nat.sub_eq_zero_iff_le.mp (congrArg Chips.count flat))
            (Nat.not_le_of_lt step)
        have reached := counted.length_players remaining step
        rw [if_neg same]
        by_cases last : rest = []
        · subst last
          rw [if_neg (by simp)]
          exact ⟨[], some (between contributions below level),
            ⟨rfl, by simp, by simpa using reached⟩, rfl⟩
        · have several : 2 ≤ (between contributions below level).players.length := by
            have := List.length_pos_of_ne_nil last
            omega
          rw [if_pos ⟨rises, last⟩, found, ← reached]
          exact ⟨between contributions below level :: shared, lone, topped.cons several, rfl⟩

end SidePot

namespace Breakdown

variable {contributions : Contributions} {total : Chips}

theorem sidePots_perm {first second : List Chips} (same : first.Perm second)
    (total other : Chips) :
    (ofCommitments first total).sidePots = (ofCommitments second other).sidePots := by
  unfold ofCommitments
  rw [Chips.mergeSort_eq_of_perm (same.filter _)]

/-- The side pots are the layers that at least two players reached, without the lowest one. So
neither the order of the contributions nor the total matters to them. A total that covers the
contributions is the main pot and the side pots together, and the main pot is the lowest shared
layer, the layer of a single player on top, and what of the total nobody put in. -/
theorem sidePots_agree_with_layers (contributions : Contributions) :
    let shared := (sharedLayers contributions).map SidePot.amount
    (∀ total,
      (ofCommitments (contributions.map Prod.snd) total).sidePots = shared.drop 1) ∧
    (∀ others : Contributions, others.Perm contributions → ∀ total other,
      (ofCommitments (others.map Prod.snd) other).sidePots =
        (ofCommitments (contributions.map Prod.snd) total).sidePots) ∧
    ∀ total : Chips, tally (contributions.map (·.2.count)) ≤ total.count →
      let split := ofCommitments (contributions.map Prod.snd) total
      split.total = total ∧
        split.main.count = shared.head?.elim 0 Chips.count +
          (loneLayer? contributions).elim 0 (·.amount.count) +
          (total.count - tally (contributions.map (·.2.count))) := by
  intro shared
  obtain ⟨cut, lone, topped, found⟩ :=
    above_topped (Remaining.start contributions) (Counted.start contributions)
  have shared_eq : shared = cut.map SidePot.amount := congrArg _ topped.filter_eq
  have sides : ∀ total,
      (ofCommitments (contributions.map Prod.snd) total).sidePots = shared.drop 1 := by
    intro total
    rw [shared_eq, ← found]
    rfl
  refine ⟨sides, fun others same total other => sidePots_perm (same.map _) other total, ?_⟩
  intro total covers split
  have fits := Nat.le_trans covers total.le_cap
  have parts : tally (shared.map Chips.count) +
      (loneLayer? contributions).elim 0 (·.amount.count) =
        tally (contributions.map (·.2.count)) := by
    rw [← tally_amounts_layers fits, layers, topped.tally_eq, shared_eq, List.map_map,
      loneLayer?, layers, topped.getLast?_eq]
    rfl
  have lowest : tally (shared.map Chips.count) =
      shared.head?.elim 0 Chips.count + tally ((shared.drop 1).map Chips.count) := by
    cases shared <;> rfl
  have exactly : split.sideTotal.count = tally ((shared.drop 1).map Chips.count) := by
    rw [sideTotal, sides total]
    apply Chips.count_sum_of_le
    omega
  have main : split.main.count = total.count - split.sideTotal.count := rfl
  refine ⟨Chips.ext ?_, ?_⟩
  · have within := total.le_cap
    rw [Breakdown.total, Chips.count_add]
    omega
  · omega

/-- Two players with the same lowest amount, one who bet more than all others, and one who put in
nothing. Five chips of the total are from elsewhere. -/
def unevenBets : Contributions :=
  [(1, .ofNat 90), (2, .ofNat 20), (3, 0), (4, .ofNat 50), (5, .ofNat 20)]

theorem sidePots_agree_with_layers_unevenBets :
    unevenBets.Perm unevenBets.reverse ∧
    tally (unevenBets.map (·.2.count)) ≤ (Chips.ofNat 185).count ∧
    (ofCommitments (unevenBets.reverse.map Prod.snd) 0).sidePots = [.ofNat 60] ∧
    (ofCommitments (unevenBets.map Prod.snd) (.ofNat 185)).total = .ofNat 185 ∧
    (ofCommitments (unevenBets.map Prod.snd) (.ofNat 185)).main.count = 80 + 40 + 5 := by
  have same : unevenBets.reverse.Perm unevenBets := List.reverse_perm _
  have covers : tally (unevenBets.map (·.2.count)) ≤ (Chips.ofNat 185).count := by decide
  obtain ⟨sides, reordered, split⟩ := sidePots_agree_with_layers unevenBets
  obtain ⟨whole, main⟩ := split (.ofNat 185) covers
  refine ⟨same.symm, covers, ?_, whole, ?_⟩
  · rw [reordered _ same (.ofNat 185) 0, sides]
    cbv
  · rw [main]
    cbv

end Breakdown

end CardRoom
