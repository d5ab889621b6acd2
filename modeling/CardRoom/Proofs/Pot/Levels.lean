import Mathlib
import CardRoom.Proofs.Pot.Layers

/-! # Contributions found again in the layers

The different amounts that were put in are the levels of a pot, and each step from one level to
the next is a layer. A player is in the layers up to his own amount and pays one step in each of
them, so his payments add up to what he put in.
-/

namespace CardRoom

namespace Contributions

/-- The different amounts that were put in, the lowest first. -/
def levels (contributions : Contributions) : List Chips :=
  ((contributions.map Prod.snd).filter (· ≠ 0)).dedup.mergeSort fun a b => decide (a ≤ b)

/-- The players who put in at least so much, in the order of the contributions. -/
def reaching (contributions : Contributions) (level : Chips) : List PlayerId :=
  (contributions.filter fun e => decide (level ≤ e.2)).map Prod.fst

end Contributions

open Contributions

namespace SidePot

variable {contributions : Contributions} {below level higher : Chips} {levels amounts : List Chips}
  {e : PlayerId × Chips}

/-! ## One layer -/

theorem players_between (contributions : Contributions) (below level : Chips) :
    (between contributions below level).players = contributions.reaching level := rfl

theorem getElem?_foldl_insert (ids : List PlayerId) (c : Chips)
    (map : Std.TreeMap PlayerId Chips) (id : PlayerId) :
    (ids.foldl (fun map id => map.insert id c) map)[id]? =
      if id ∈ ids then some c else map[id]? := by
  induction ids generalizing map with
  | nil => simp
  | cons first ids ih =>
      rw [List.foldl_cons, ih]
      by_cases later : id ∈ ids
      · simp [later]
      · by_cases own : first = id
        · simp [own]
        · simp [later, own, Ne.symm own, Std.TreeMap.getElem?_insert]

theorem getElem?_contributions_between (id : PlayerId) :
    (between contributions below level).contributions[id]? =
      if id ∈ (between contributions below level).players then some (level - below) else none := by
  have inserted := getElem?_foldl_insert (contributions.reaching level) (level - below) ∅ id
  by_cases member : id ∈ contributions.reaching level
  · exact inserted.trans ((if_pos member).trans (if_pos member).symm)
  · exact inserted.trans ((if_neg member).trans (by simp [players_between, member]))

/-- The map of a layer has one entry for each player on its list. -/
theorem toList_contributions_between (distinct : (contributions.map Prod.fst).Nodup)
    (below level : Chips) :
    (between contributions below level).contributions.toList.Perm
      ((between contributions below level).players.map fun id => (id, level - below)) := by
  have listed : (between contributions below level).players.Nodup :=
    (List.filter_sublist.map _).nodup distinct
  have keys : (between contributions below level).contributions.toList.Nodup := by
    refine Std.TreeMap.distinct_keys_toList.imp ?_
    rintro a _ apart rfl
    exact apart Std.ReflCmp.compare_self
  have entries := listed.map (f := fun id => (id, level - below)) fun _ _ => congrArg Prod.fst
  refine (List.perm_ext_iff_of_nodup keys entries).mpr fun (id, c) => ?_
  rw [Std.TreeMap.mem_toList_iff_getElem?_eq_some, getElem?_contributions_between, List.mem_map]
  constructor
  · intro found
    obtain ⟨member, step⟩ := Option.ite_none_right_eq_some.mp found
    cases step
    exact ⟨id, member, rfl⟩
  · rintro ⟨_, member, same⟩
    cases same
    exact if_pos member

/-- The amount of a layer is what all players put into it. A step is never more than a player put
in, so the cap does not cut it off. -/
theorem tally_contributions_between (distinct : (contributions.map Prod.fst).Nodup)
    (fits : tally (contributions.map (·.2.count)) ≤ cap) :
    (between contributions below level).amount.count =
      tally ((between contributions below level).contributions.toList.map (·.2.count)) := by
  have entries := (toList_contributions_between distinct below level).map (·.2.count)
  have paid : tally ((contributions.filter fun e => decide (level ≤ e.2)).map fun _ =>
      (level - below).count) ≤ cap := by
    refine le_trans (tally_le_tally fun e member => ?_) ((tally_filter_le _ _ _).trans fits)
    have reached := Chips.le_iff.mp (of_decide_eq_true (List.mem_filter.mp member).2)
    rw [Chips.count_sub]
    omega
  rw [tally_const] at paid
  rw [List.map_map] at entries
  rw [tally_perm entries]
  refine Eq.trans ?_ (tally_const (level - below).count _).symm
  rw [between, Chips.count_times, List.length_map]
  exact Nat.min_eq_left paid

/-- A player has paid one step into each layer up to his own amount, and nothing above it. -/
theorem paid_between (distinct : (contributions.map Prod.fst).Nodup) (above : below < level)
    (member : e ∈ contributions) :
    ((between contributions below level).contributions.getD e.1 0).count =
      if level ≤ e.2 then level.count - below.count else 0 := by
  have reached : e.1 ∈ (between contributions below level).players ↔ level ≤ e.2 := by
    rw [mem_players_between distinct above, stakeOf_of_mem distinct member]
  rw [Std.TreeMap.getD_eq_getD_getElem?, getElem?_contributions_between]
  by_cases high : level ≤ e.2
  · rw [if_pos high, if_pos (reached.mpr high), Option.getD_some, Chips.count_sub]
  · rw [if_neg high, if_neg (mt reached.mp high), Option.getD_none, Chips.count_zero]

/-- Some player who reached a level did not reach a higher one. -/
theorem reaching_shrinks (member : e ∈ contributions) (step : e.2 < higher) :
    (contributions.reaching higher).Sublist (contributions.reaching e.2) ∧
      (contributions.reaching higher).length < (contributions.reaching e.2).length := by
  have within : (contributions.filter fun d => decide (higher ≤ d.2)).Sublist
      (contributions.filter fun d => decide (e.2 ≤ d.2)) := by
    refine List.monotone_filter_right _ fun d reached => ?_
    rw [decide_eq_true_eq, Chips.le_iff] at *
    rw [Chips.lt_iff] at step
    omega
  refine ⟨within.map Prod.fst, ?_⟩
  rw [reaching, reaching, List.length_map, List.length_map]
  refine Nat.lt_of_le_of_ne within.length_le fun as_many => ?_
  -- Were the lists equally long, they would be equal, and the player with the lower amount in both.
  have own : e ∈ contributions.filter fun d => decide (e.2 ≤ d.2) :=
    List.mem_filter.mpr ⟨member, decide_eq_true (Nat.le_refl _)⟩
  rw [← within.eq_of_length as_many, List.mem_filter] at own
  exact Nat.not_le_of_lt step (of_decide_eq_true own.2)

/-! ## From level to level -/

/-- The amounts above a level, each once and in ascending order. -/
structure Steps (contributions : Contributions) (below : Chips) (levels : List Chips) : Prop where
  ascending : (below :: levels).Pairwise (· < ·)
  mem_iff : ∀ level, level ∈ levels ↔ below < level ∧ ∃ e ∈ contributions, e.2 = level

namespace Steps

theorem below_lt (steps : Steps contributions below (level :: levels)) : below < level :=
  List.rel_of_pairwise_cons steps.ascending List.mem_cons_self

theorem lt_of_mem (steps : Steps contributions below (level :: levels)) {a : Chips}
    (later : a ∈ levels) : level < a :=
  (List.pairwise_cons.mp (List.pairwise_cons.mp steps.ascending).2).1 a later

theorem tail (steps : Steps contributions below (level :: levels)) :
    Steps contributions level levels where
  ascending := (List.pairwise_cons.mp steps.ascending).2
  mem_iff := by
    intro a
    constructor
    · intro later
      exact ⟨steps.lt_of_mem later, ((steps.mem_iff a).mp (List.mem_cons_of_mem level later)).2⟩
    · rintro ⟨higher, entry⟩
      have listed := (steps.mem_iff a).mpr ⟨Nat.lt_trans steps.below_lt higher, entry⟩
      rcases List.mem_cons.mp listed with rfl | later
      · exact absurd higher (Nat.lt_irrefl _)
      · exact later

theorem gap (steps : Steps contributions below (level :: levels)) (member : e ∈ contributions) :
    e.2 ≤ below ∨ level ≤ e.2 := by
  by_cases low : e.2 ≤ below
  · exact .inl low
  · have listed := (steps.mem_iff e.2).mpr ⟨Nat.lt_of_not_le low, e, member, rfl⟩
    rcases List.mem_cons.mp listed with same | later
    · exact .inr (Nat.le_of_eq (congrArg Chips.count same.symm))
    · exact .inr (Nat.le_of_lt (steps.lt_of_mem later))

theorem le_of_nil (steps : Steps contributions below []) (member : e ∈ contributions) :
    e.2 ≤ below := by
  by_contra high
  exact List.not_mem_nil ((steps.mem_iff e.2).mpr ⟨Nat.lt_of_not_le high, e, member, rfl⟩)

end Steps

theorem steps_levels (contributions : Contributions) :
    Steps contributions 0 contributions.levels := by
  have member : ∀ level, level ∈ contributions.levels ↔
      (0 : Chips) < level ∧ ∃ e ∈ contributions, e.2 = level := by
    intro level
    rw [levels, List.mem_mergeSort, List.mem_dedup, List.mem_filter, List.mem_map, and_comm]
    refine and_congr_left fun _ => ?_
    rw [decide_eq_true_eq, ne_eq, ← Chips.count_eq_zero, Chips.lt_iff, Chips.count_zero]
    exact Nat.pos_iff_ne_zero.symm
  refine ⟨List.pairwise_cons.mpr ⟨fun level listed => ((member level).mp listed).1, ?_⟩, member⟩
  have different : contributions.levels.Nodup :=
    (List.mergeSort_perm _ _).nodup_iff.mpr (List.nodup_dedup _)
  refine ((Chips.pairwise_mergeSort _).and different).imp fun ⟨le, apart⟩ => ?_
  exact Nat.lt_of_le_of_ne le (mt Chips.count_inj.mp apart)

/-- The layers lie between the levels next to each other. -/
theorem above_eq_zipWith (remaining : Remaining contributions below amounts)
    (steps : Steps contributions below levels) :
    above contributions below amounts =
      List.zipWith (between contributions) (below :: levels) levels := by
  -- An amount equal to the level below is passed over, and any other one is the next level.
  induction amounts generalizing below levels with
  | nil =>
      cases levels with
      | nil => rfl
      | cons level levels =>
          obtain ⟨higher, e, member, rfl⟩ := (steps.mem_iff level).mp List.mem_cons_self
          have low := (remaining.complete e member).resolve_right List.not_mem_nil
          exact absurd higher (Nat.not_lt_of_le low)
  | cons amount rest ih =>
      unfold above
      split
      · rename_i same
        subst same
        exact ih remaining.tail steps
      · rename_i apart
        have higher := remaining.below_lt apart
        obtain ⟨e, member, own⟩ := remaining.sound amount List.mem_cons_self
        cases levels with
        | nil => exact absurd (own ▸ steps.le_of_nil member) (Nat.not_le_of_lt higher)
        | cons level levels =>
            obtain ⟨-, d, entry, same⟩ := (steps.mem_iff level).mp List.mem_cons_self
            have up := (own ▸ steps.gap member).resolve_left (Nat.not_le_of_lt higher)
            have down := (same ▸ remaining.gap d entry).resolve_left
              (Nat.not_le_of_lt steps.below_lt)
            obtain rfl : level = amount := Chips.ext (Nat.le_antisymm up down)
            rw [List.zipWith_cons_cons, ih remaining.tail steps.tail]

theorem layers_eq_zipWith (contributions : Contributions) :
    layers contributions =
      List.zipWith (between contributions) (0 :: contributions.levels) contributions.levels :=
  above_eq_zipWith (Remaining.start contributions) (steps_levels contributions)

theorem map_players_layers (contributions : Contributions) :
    (layers contributions).map SidePot.players =
      contributions.levels.map contributions.reaching := by
  rw [layers_eq_zipWith, List.map_zipWith]
  generalize contributions.levels = levels
  suffices each : ∀ below : Chips, List.zipWith (fun below level =>
      (between contributions below level).players) (below :: levels) levels =
        levels.map contributions.reaching from each 0
  induction levels with
  | nil => exact fun _ => rfl
  | cons level levels ih => exact fun below => congrArg (List.cons _) (ih level)

/-- What a player has paid into the layers above a level is what he put in beyond it. -/
theorem tally_paid_above (distinct : (contributions.map Prod.fst).Nodup)
    (steps : Steps contributions below levels) (member : e ∈ contributions) :
    tally ((List.zipWith (between contributions) (below :: levels) levels).map fun layer =>
      (layer.contributions.getD e.1 0).count) = e.2.count - below.count := by
  induction levels generalizing below with
  | nil =>
      have low := Chips.le_iff.mp (steps.le_of_nil member)
      rw [List.zipWith_nil_right, List.map_nil, tally_nil]
      omega
  | cons level levels ih =>
      have step := Chips.lt_iff.mp steps.below_lt
      rw [List.zipWith_cons_cons, List.map_cons, tally_cons, ih steps.tail,
        paid_between distinct steps.below_lt member]
      rcases steps.gap member with low | high
      · have under : ¬ level ≤ e.2 := Nat.not_le_of_lt (Nat.lt_of_le_of_lt low step)
        rw [if_neg under]
        rw [Chips.le_iff] at low under
        omega
      · rw [if_pos high]
        rw [Chips.le_iff] at high
        omega

/-- There is one layer for each level. It lists, in the order of the contributions, the players who
reached the level, each of them has paid the step from the level below, and these payments are its
amount. Each layer has fewer players than the one below. Over all layers every player has paid what
he put in, and the layers hold what was put in together. -/
theorem layers_reconstruct_contributions (contributions : Contributions)
    (distinct : (contributions.map Prod.fst).Nodup)
    (fits : tally (contributions.map (·.2.count)) ≤ cap) :
    let cut := layers contributions
    let levels := contributions.levels
    levels.Pairwise (· < ·) ∧
    (∀ level, level ∈ levels ↔ level ≠ 0 ∧ ∃ e ∈ contributions, e.2 = level) ∧
    cut.length = levels.length ∧
    (∀ (k : Nat) (layer : SidePot), cut[k]? = some layer →
      ∃ below level, (0 :: levels)[k]? = some below ∧ levels[k]? = some level ∧
        layer.players = contributions.reaching level ∧
        (∀ id, layer.contributions[id]? =
          if id ∈ layer.players then some (level - below) else none) ∧
        layer.amount.count = tally (layer.contributions.toList.map (·.2.count))) ∧
    (cut.map SidePot.players).Pairwise (fun lower upper =>
      upper.Sublist lower ∧ upper.length < lower.length) ∧
    (∀ e ∈ contributions,
      tally (cut.map fun layer => (layer.contributions.getD e.1 0).count) = e.2.count) ∧
    tally (cut.map (·.amount.count)) = tally (contributions.map (·.2.count)) := by
  intro cut levels
  have steps : Steps contributions 0 levels := steps_levels contributions
  have ascending : levels.Pairwise (· < ·) := (List.pairwise_cons.mp steps.ascending).2
  have shape : cut = List.zipWith (between contributions) (0 :: levels) levels :=
    layers_eq_zipWith contributions
  refine ⟨ascending, fun level => ?_, ?_, fun k layer here => ?_, ?_, fun e member => ?_,
    tally_amounts_layers fits⟩
  · rw [steps.mem_iff, Chips.lt_iff, Chips.count_zero, Nat.pos_iff_ne_zero, ne_eq,
      Chips.count_eq_zero]
  · rw [shape, List.length_zipWith, List.length_cons]
    omega
  · rw [shape, List.getElem?_zipWith_eq_some] at here
    obtain ⟨below, level, from_below, up_to, rfl⟩ := here
    exact ⟨below, level, from_below, up_to, players_between .., getElem?_contributions_between,
      tally_contributions_between distinct fits⟩
  · rw [show cut.map SidePot.players = levels.map contributions.reaching from
      map_players_layers contributions, List.pairwise_map]
    refine ascending.imp_of_mem fun {low high} listed _ step => ?_
    obtain ⟨-, e, member, rfl⟩ := (steps.mem_iff low).mp listed
    exact reaching_shrinks member step
  · rw [shape, tally_paid_above distinct steps member]
    exact Nat.sub_zero _

/-- Two players with the same amount, one who put in nothing, and one with the highest bet. -/
def tiedBets : Contributions :=
  [(4, .ofNat 30), (1, .ofNat 50), (7, 0), (2, .ofNat 30), (3, .ofNat 5)]

theorem layers_reconstruct_contributions_tiedBets :
    (tiedBets.map Prod.fst).Nodup ∧ tally (tiedBets.map (·.2.count)) ≤ cap ∧
      (layers tiedBets).length = 3 ∧
      tally ((layers tiedBets).map fun layer => (layer.contributions.getD 2 0).count) = 30 ∧
      tally ((layers tiedBets).map (·.amount.count)) = 115 := by
  have distinct : (tiedBets.map Prod.fst).Nodup := by decide
  have fits : tally (tiedBets.map (·.2.count)) ≤ cap := by decide
  obtain ⟨-, -, as_many, -, -, paid, total⟩ :=
    layers_reconstruct_contributions tiedBets distinct fits
  refine ⟨distinct, fits, as_many.trans (by cbv), ?_, total⟩
  exact paid (2, .ofNat 30) (by simp [tiedBets])

end SidePot

end CardRoom
