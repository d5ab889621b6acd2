import Mathlib
import CardRoom.Proofs.Pot.Account
import CardRoom.Proofs.Pot.Layers

/-! # Nobody wins more than he covered

When the pot is cut into layers and at most one player put in more than every active player,
each layer up to the highest amount of an active player is contested, so no chips are passed on,
and the one layer above it goes back. An active player is on the lists of exactly the layers up
to his own amount, which hold what everyone put in up to it.
-/

namespace CardRoom

open Contributions SidePot

/-- What a player can win: from everyone as much as he put in himself. -/
def covered (contributions : Contributions) (players : List Player) (id : PlayerId) : Nat :=
  tally (players.map fun p =>
    min (contributions.stakeOf p.id).count (contributions.stakeOf id).count)

/-- A function of the amounts that vanishes at zero adds up to the same over the players and over
the contributions. -/
theorem tally_players {contributions : Contributions} {players : List Player}
    (distinct : (contributions.map Prod.fst).Nodup) (ids : (players.map Player.id).Nodup)
    (seated : ∀ e ∈ contributions, ∃ p ∈ players, p.id = e.1) {f : Nat → Nat} (zero : f 0 = 0) :
    tally (players.map fun p => f (contributions.stakeOf p.id).count) =
      tally (contributions.map fun e => f e.2.count) := by
  have listed : (contributions.map Prod.fst).toFinset ⊆ (players.map Player.id).toFinset := by
    intro id member
    obtain ⟨e, entry, rfl⟩ := List.mem_map.mp (List.mem_toFinset.mp member)
    obtain ⟨p, present, same⟩ := seated e entry
    exact List.mem_toFinset.mpr (List.mem_map.mpr ⟨p, present, same⟩)
  have others : ∀ id ∈ (players.map Player.id).toFinset,
      id ∉ (contributions.map Prod.fst).toFinset → f (contributions.stakeOf id).count = 0 := by
    intro id _ absent
    rw [stakeOf_of_absent (by simpa only [List.mem_toFinset] using absent)]
    exact zero
  calc tally (players.map fun p => f (contributions.stakeOf p.id).count)
      = ∑ id ∈ (players.map Player.id).toFinset, f (contributions.stakeOf id).count := by
        rw [List.sum_toFinset _ ids, List.map_map, tally_eq_sum]
        rfl
    _ = ∑ id ∈ (contributions.map Prod.fst).toFinset, f (contributions.stakeOf id).count :=
        (Finset.sum_subset listed others).symm
    _ = tally (contributions.map fun e => f e.2.count) := by
        rw [List.sum_toFinset _ distinct, List.map_map, tally_eq_sum]
        exact congrArg List.sum (List.map_congr_left fun e member => by
          rw [Function.comp_apply, stakeOf_of_mem distinct member])

theorem covered_eq_upTo {contributions : Contributions} {players : List Player}
    (distinct : (contributions.map Prod.fst).Nodup) (ids : (players.map Player.id).Nodup)
    (seated : ∀ e ∈ contributions, ∃ p ∈ players, p.id = e.1) (id : PlayerId) :
    covered contributions players id = contributions.upTo (contributions.stakeOf id).count :=
  tally_players distinct ids seated (f := fun n => min n (contributions.stakeOf id).count)
    (Nat.zero_min _)

/-- The active players put in up to `top`, and at most one entry lies above it. -/
structure Called (contributions : Contributions) (active : List PlayerId) (top : Chips) : Prop where
  distinct : (contributions.map Prod.fst).Nodup
  reached : ∃ id ∈ active, contributions.stakeOf id = top
  highest : ∀ id ∈ active, contributions.stakeOf id ≤ top
  single : ∀ d ∈ contributions, ∀ e ∈ contributions, top < d.2 → top < e.2 → d = e

def SidePot.asPot (side : SidePot) : Pot := ⟨side.amount, side.players⟩

namespace Called

variable {contributions : Contributions} {active : List PlayerId} {top below level : Chips}
  {amounts rest : List Chips}

theorem isContested (called : Called contributions active top) (step : below < level)
    (low : level ≤ top) : (between contributions below level).asPot.isContested active = true := by
  obtain ⟨id, member, reaches⟩ := called.reached
  exact Pot.isContested_iff.mpr
    ⟨id, (mem_players_between called.distinct step).mpr (reaches ▸ low), member⟩

theorem refund?_of_le (called : Called contributions active top) (step : below < level)
    (low : level ≤ top) : Pot.refund? active (between contributions below level).asPot = none := by
  obtain ⟨id, listed, member⟩ := Pot.isContested_iff.mp (called.isContested step low)
  cases back : Pot.refund? active (between contributions below level).asPot with
  | none => rfl
  | some refund =>
      obtain ⟨alone, -, -, idle⟩ := Pot.refund?_eq_some.mp back
      rw [alone, List.mem_singleton] at listed
      exact absurd (listed ▸ member) idle

theorem filter_eq_singleton (called : Called contributions active top) {e : PlayerId × Chips}
    (member : e ∈ contributions) (high : top < e.2) {p : PlayerId × Chips → Bool} (holds : p e = true)
    (only : ∀ d ∈ contributions, p d = true → top < d.2) : contributions.filter p = [e] := by
  have nodup : contributions.Nodup := List.Nodup.of_map _ called.distinct
  refine List.perm_singleton.mp
    ((List.perm_ext_iff_of_nodup (nodup.filter p) (List.nodup_singleton e)).mpr fun d => ?_)
  rw [List.mem_filter, List.mem_singleton]
  constructor
  · rintro ⟨listed, satisfies⟩
    exact called.single d listed e member (only d listed satisfies) high
  · rintro rfl
    exact ⟨member, holds⟩

theorem refund?_of_lt (called : Called contributions active top) (step : below < level)
    {e : PlayerId × Chips} (member : e ∈ contributions) (same : e.2 = level) (high : top < level) :
    Pot.refund? active (between contributions below level).asPot = some (e.1, level - below) := by
  have alone : (contributions.filter fun d => decide (level ≤ d.2)) = [e] :=
    called.filter_eq_singleton member (same ▸ high) (by simp [same, Chips.le_iff])
      fun d _ reaches => Nat.lt_of_lt_of_le high (of_decide_eq_true reaches)
  rw [Chips.lt_iff] at step high
  refine Pot.refund?_eq_some.mpr ⟨?_, ?_, ?_, ?_⟩
  · simp [asPot, between, alone]
  · apply Chips.ext
    have bound := level.le_cap
    simp only [asPot, between, alone, Chips.count_sub, Chips.count_times, List.map_cons,
      List.map_nil, List.length_cons, List.length_nil]
    omega
  · intro empty
    have bound := level.le_cap
    have zero := congrArg Chips.count empty
    simp only [asPot, between, alone, Chips.count_sub, Chips.count_times, List.map_cons,
      List.map_nil, List.length_cons, List.length_nil, Chips.count_zero] at zero
    omega
  · intro idle
    have low := Chips.le_iff.mp (called.highest e.1 idle)
    rw [stakeOf_of_mem called.distinct member, same] at low
    omega

theorem above_eq_nil_of_high (called : Called contributions active top)
    (remaining : Remaining contributions below (level :: rest)) (high : top < level) :
    above contributions level rest = [] := by
  obtain ⟨e, member, reaches⟩ := remaining.sound level List.mem_cons_self
  apply above_eq_nil
  intro a later
  obtain ⟨d, entry, rfl⟩ := remaining.tail.sound a later
  have higher := List.rel_of_pairwise_cons remaining.tail.ascending later
  rw [called.single d entry e member (Nat.lt_of_lt_of_le high higher) (reaches ▸ high), reaches]

theorem refunds_of_high (called : Called contributions active top)
    (remaining : Remaining contributions top (level :: rest)) (high : top < level) :
    Pot.refunds active ((between contributions top level :: above contributions level rest).map
        asPot) =
      (contributions.filter fun e => decide (top < e.2)).map fun e => (e.1, e.2 - top) := by
  obtain ⟨e, member, reaches⟩ := remaining.sound level List.mem_cons_self
  have alone : (contributions.filter fun d => decide (top < d.2)) = [e] :=
    called.filter_eq_singleton member (reaches ▸ high) (decide_eq_true (reaches ▸ high))
      fun d _ beyond => of_decide_eq_true beyond
  rw [called.above_eq_nil_of_high remaining high, alone, List.map_cons, List.map_nil, Pot.refunds,
    List.filterMap_cons, called.refund?_of_lt high member reaches high, ← reaches]
  rfl

theorem refunds_above (called : Called contributions active top)
    (remaining : Remaining contributions below amounts) (ahead : top = below ∨ top ∈ amounts) :
    Pot.refunds active ((above contributions below amounts).map asPot) =
      (contributions.filter fun e => decide (top < e.2)).map fun e => (e.1, e.2 - top) := by
  -- No layer up to `top` goes back, so the list stays empty until the one step above `top`.
  induction amounts generalizing below with
  | nil =>
      obtain rfl : top = below := by simpa using ahead
      have nobody : (contributions.filter fun e => decide (top < e.2)) = [] := by
        apply List.filter_eq_nil_iff.mpr
        intro e member high
        have low := (remaining.complete e member).resolve_right List.not_mem_nil
        exact absurd (of_decide_eq_true high) (Nat.not_lt_of_le low)
      rw [nobody]
      rfl
  | cons level rest ih =>
      unfold above
      split
      · rename_i same
        subst same
        exact ih remaining.tail (by simpa using ahead)
      · rename_i apart
        have step := remaining.below_lt apart
        by_cases low : level ≤ top
        · have later : top = level ∨ top ∈ rest := by
            rcases ahead with rfl | later
            · exact absurd step (Nat.not_lt_of_le low)
            · simpa using later
          rw [List.map_cons, Pot.refunds, List.filterMap_cons, called.refund?_of_le step low]
          exact ih remaining.tail later
        · obtain rfl : top = below := ahead.resolve_right fun listed => low <| by
            rcases List.mem_cons.mp listed with rfl | later
            · exact Nat.le_refl _
            · exact List.rel_of_pairwise_cons remaining.tail.ascending later
          exact called.refunds_of_high remaining (Nat.lt_of_not_le low)

theorem settled_layers (called : Called contributions active top) {p : Pot}
    (member : p ∈ Pot.withoutRefunds active ((layers contributions).map asPot)) :
    Pot.Settled active p := by
  obtain ⟨q, listed, rfl⟩ := List.mem_map.mp member
  obtain ⟨layer, cut, rfl⟩ := List.mem_map.mp listed
  obtain ⟨lower, level, rfl, -, step, ⟨e, entry, same⟩, -⟩ :=
    exists_of_mem_above (Remaining.start contributions) cut
  by_cases low : level ≤ top
  · rw [called.refund?_of_le step low]
    exact .inr (called.isContested step low)
  · rw [called.refund?_of_lt step entry same (Nat.lt_of_not_le low)]
    exact .inl rfl

end Called

namespace Showdown

def ofContributions (players : List Player) (contributions : Contributions) (board : List Card) :
    Showdown :=
  { players, sidePots := layers contributions, board }

variable {judge : Judge} {players : List Player} {contributions : Contributions}
  {board : List Card} {top : Chips} {active : List PlayerId}

theorem refunds_ofContributions (called : Called contributions active top) :
    Pot.refunds active ((ofContributions players contributions board).pots active) =
      (contributions.filter fun e => decide (top < e.2)).map fun e => (e.1, e.2 - top) := by
  obtain ⟨id, -, reaches⟩ := called.reached
  have layered := called.refunds_above (Remaining.start contributions)
    (reaches ▸ stakeOf_mem_amounts contributions id)
  rcases pots_cases active (ofContributions players contributions board) with plain | extended
  · rw [plain]
    exact layered
  · have none_back : Pot.refund? active ⟨0, active⟩ = none := by
      cases back : Pot.refund? active ⟨0, active⟩ with
      | none => rfl
      | some refund => exact absurd rfl (Pot.refund?_eq_some.mp back).2.2.1
    rw [extended, Pot.refunds, List.filterMap_append]
    simp only [ofContributions, List.filterMap_cons, none_back, List.filterMap_nil,
      List.append_nil]
    exact layered

/-- Nothing is passed on, so a player is listed for what everyone put in up to his own amount. -/
theorem total_listing_ofContributions (fits : tally (contributions.map (·.2.count)) ≤ cap)
    (called : Called contributions
      ((ofContributions players contributions board).active judge) top)
    {id : PlayerId} (member : id ∈ (ofContributions players contributions board).active judge) :
    Pot.total ((ofContributions players contributions board).listing judge id) =
      contributions.upTo (contributions.stakeOf id).count := by
  have cut : ((layers contributions).map asPot).filter (id ∈ ·.eligible) =
      ((layers contributions).filter (id ∈ ·.players)).map asPot := by
    rw [List.filter_map]
    rfl
  have layered : Pot.total (((layers contributions).map asPot).filter (id ∈ ·.eligible)) =
      contributions.upTo (contributions.stakeOf id).count := by
    rw [cut, Pot.total, List.map_map, ← tally_layers fits called.distinct]
    rfl
  rw [listing]
  generalize hact : (ofContributions players contributions board).active judge = active at *
  rcases pots_cases active (ofContributions players contributions board) with plain | extended
  · change _ = (layers contributions).map asPot at plain
    rw [plain, Pot.resolve_of_settled fun _ => called.settled_layers,
      Pot.filter_withoutRefunds member, layered]
  · have settled : ∀ p ∈ Pot.withoutRefunds active
        ((layers contributions).map asPot ++ [⟨0, active⟩]), Pot.Settled active p := by
      intro p listed
      rw [Pot.withoutRefunds, List.map_append, List.mem_append] at listed
      rcases listed with layer | empty
      · exact called.settled_layers layer
      · obtain rfl := List.mem_singleton.mp empty
        refine .inl ?_
        dsimp only
        split <;> rfl
    change _ = (layers contributions).map asPot ++ [⟨0, active⟩] at extended
    rw [extended, Pot.resolve_of_settled settled, Pot.filter_withoutRefunds member,
      List.filter_append, Pot.total, List.map_append, tally_append, ← Pot.total, layered]
    simp [member]

section

variable {players : List Player} {board : List Card} {contributions : Contributions} {top : Chips}

theorem stake_of_entry (distinct : (contributions.map Prod.fst).Nodup)
    (seated : ∀ e ∈ contributions, ∃ p ∈ players, p.id = e.1) :
    ∀ e ∈ contributions, ∃ p ∈ players, p.id = e.1 ∧ contributions.stakeOf p.id = e.2 := by
  intro e entry
  obtain ⟨p, present, same⟩ := seated e entry
  exact ⟨p, present, same, same ▸ stakeOf_of_mem distinct entry⟩

theorem called_of_players (judge : Judge) (board : List Card)
    (distinct : (contributions.map Prod.fst).Nodup)
    (seated : ∀ e ∈ contributions, ∃ p ∈ players, p.id = e.1)
    (reached : ∃ p ∈ players, p.folded = false ∧ contributions.stakeOf p.id = top)
    (highest : ∀ p ∈ players, p.folded = false → contributions.stakeOf p.id ≤ top)
    (single : ∀ p ∈ players, ∀ q ∈ players,
      top < contributions.stakeOf p.id → top < contributions.stakeOf q.id → p = q) :
    Called contributions ((ofContributions players contributions board).active judge) top := by
  refine ⟨distinct, ?_, ?_, ?_⟩
  · obtain ⟨p, present, active, reaches⟩ := reached
    exact ⟨p.id, mem_active.mpr ⟨p, present, active, rfl⟩, reaches⟩
  · intro id member
    obtain ⟨p, present, active, rfl⟩ := mem_active.mp member
    exact highest p present active
  · intro d first e second d_high e_high
    obtain ⟨p, p_present, p_id, p_stake⟩ := stake_of_entry distinct seated d first
    obtain ⟨q, q_present, q_id, q_stake⟩ := stake_of_entry distinct seated e second
    have same := single p p_present q q_present (p_stake ▸ d_high) (q_stake ▸ e_high)
    subst same
    exact Prod.ext (p_id.symm.trans q_id) (p_stake.symm.trans q_stake)

theorem wonBy_of_beaten {judge : Judge} {s : Showdown} {p : Player} (present : p ∈ s.players)
    (active : p.folded = false)
    (best : ∀ q ∈ s.players, q.folded = false → q ≠ p →
      q.score judge s.board < p.score judge s.board) :
    Pot.wonBy (s.payments judge) p.id = Pot.total (s.listing judge p.id) := by
  obtain ⟨i, here⟩ := List.mem_iff_getElem?.mp present
  apply wonBy_of_best (contends_of_getElem? judge here active)
  intro d other apart
  obtain ⟨q, there, in_hand, same, scored⟩ := mem_contenders.mp other
  rw [scored]
  apply best q (List.mem_of_getElem? there) in_hand
  rintro rfl
  exact apart same

end

/-- No active player wins more than he covered, a player who beats all others wins all of that,
and what goes back is exactly what one player put in beyond the active players. -/
theorem winnings_le_covered (judge : Judge) (players : List Player) (board : List Card)
    (contributions : Contributions) (top : Chips)
    (distinct : (contributions.map Prod.fst).Nodup) (ids : (players.map Player.id).Nodup)
    (seated : ∀ e ∈ contributions, ∃ p ∈ players, p.id = e.1)
    (fits : tally (contributions.map (·.2.count)) + held players ≤ cap)
    (reached : ∃ p ∈ players, p.folded = false ∧ contributions.stakeOf p.id = top)
    (highest : ∀ p ∈ players, p.folded = false → contributions.stakeOf p.id ≤ top)
    (single : ∀ p ∈ players, ∀ q ∈ players,
      top < contributions.stakeOf p.id → top < contributions.stakeOf q.id → p = q) :
    let account := ((ofContributions players contributions board).settle judge).2
    (∀ p ∈ players, p.folded = false →
      (account.winnings p.id).count ≤ covered contributions players p.id ∧
      ((∀ q ∈ players, q.folded = false → q ≠ p → q.score judge board < p.score judge board) →
        (account.winnings p.id).count = covered contributions players p.id)) ∧
    ((∀ p ∈ players, contributions.stakeOf p.id ≤ top) → account.refunds = []) ∧
    (∀ u ∈ players, top < contributions.stakeOf u.id →
      account.refunds = [(u.id, contributions.stakeOf u.id - top)]) := by
  intro account
  let s := ofContributions players contributions board
  have someone : ∃ p ∈ s.players, p.folded = false := by
    obtain ⟨p, present, active, -⟩ := reached
    exact ⟨p, present, active⟩
  have called : Called contributions (s.active judge) top :=
    called_of_players judge board distinct seated reached highest single
  have staked : tally (contributions.map (·.2.count)) ≤ cap := by omega
  have refunded : (s.settle judge).2.refunds =
      (contributions.filter fun e => decide (top < e.2)).map fun e => (e.1, e.2 - top) := by
    rw [settle_of_someone someone]
    exact refunds_ofContributions called
  refine ⟨?_, ?_, ?_⟩
  · intro p present active
    have member : p.id ∈ s.active judge := mem_active.mpr ⟨p, present, active, rfl⟩
    have listed : Pot.total (s.listing judge p.id) =
        contributions.upTo (contributions.stakeOf p.id).count :=
      total_listing_ofContributions staked called member
    have cover := covered_eq_upTo distinct ids seated p.id
    have won : (account.winnings p.id).count = min (Pot.wonBy (s.payments judge) p.id) cap :=
      count_winnings someone p.id
    constructor
    · have bound : Pot.wonBy (s.payments judge) p.id ≤ Pot.total (s.listing judge p.id) :=
        wonBy_le_total_listing p.id
      omega
    · intro best
      have all : Pot.wonBy (s.payments judge) p.id = Pot.total (s.listing judge p.id) :=
        wonBy_of_beaten present active best
      have within := contributions.upTo_le (contributions.stakeOf p.id).count
      omega
  · intro low
    refine refunded.trans (List.map_eq_nil_iff.mpr (List.filter_eq_nil_iff.mpr ?_))
    intro e entry high
    obtain ⟨p, present, -, stake⟩ := stake_of_entry distinct seated e entry
    exact Nat.not_lt_of_le (stake ▸ low p present) (of_decide_eq_true high)
  · intro u present high
    have filled : contributions.stakeOf u.id ≠ 0 := by
      intro nothing
      rw [nothing, Chips.lt_iff] at high
      exact Nat.not_lt_zero _ high
    rw [refunded, called.filter_eq_singleton (mem_of_stakeOf_ne_zero filled) high
      (decide_eq_true high) fun _ _ beyond => of_decide_eq_true beyond]
    rfl

/-- Two players have folded, one of them after the highest bet, and two short stacks are in. -/
def foldedBets : Contributions := [(1, .ofNat 30), (2, .ofNat 50), (3, .ofNat 10), (4, .ofNat 30)]

def shortStacks : List Player :=
  [.seated 1 0, { Player.seated 2 (.ofNat 40) with folded := true },
    { Player.seated 3 (.ofNat 5) with folded := true }, .seated 4 0]

theorem winnings_le_covered_shortStacks :
    ((foldedBets.map Prod.fst).Nodup ∧ (shortStacks.map Player.id).Nodup ∧
      (∀ e ∈ foldedBets, ∃ p ∈ shortStacks, p.id = e.1) ∧
      tally (foldedBets.map (·.2.count)) + held shortStacks ≤ cap ∧
      (∃ p ∈ shortStacks, p.folded = false ∧ foldedBets.stakeOf p.id = .ofNat 30) ∧
      (∀ p ∈ shortStacks, p.folded = false → foldedBets.stakeOf p.id ≤ .ofNat 30) ∧
      ∀ p ∈ shortStacks, ∀ q ∈ shortStacks,
        .ofNat 30 < foldedBets.stakeOf p.id → .ofNat 30 < foldedBets.stakeOf q.id → p = q) ∧
    (((ofContributions shortStacks foldedBets []).settle Hand.judge).2.winnings 4).count ≤ 100 ∧
    ((ofContributions shortStacks foldedBets []).settle Hand.judge).2.refunds =
      [(2, .ofNat 20)] := by
  have distinct : (foldedBets.map Prod.fst).Nodup := by decide
  have ids : (shortStacks.map Player.id).Nodup := by decide
  have seated : ∀ e ∈ foldedBets, ∃ p ∈ shortStacks, p.id = e.1 := by decide
  have fits : tally (foldedBets.map (·.2.count)) + held shortStacks ≤ cap := by decide
  have reached : ∃ p ∈ shortStacks, p.folded = false ∧ foldedBets.stakeOf p.id = .ofNat 30 := by
    decide
  have highest : ∀ p ∈ shortStacks, p.folded = false → foldedBets.stakeOf p.id ≤ .ofNat 30 := by
    decide
  have single : ∀ p ∈ shortStacks, ∀ q ∈ shortStacks,
      .ofNat 30 < foldedBets.stakeOf p.id → .ofNat 30 < foldedBets.stakeOf q.id → p = q := by
    decide
  obtain ⟨won, -, back⟩ := winnings_le_covered Hand.judge shortStacks [] foldedBets (.ofNat 30)
    distinct ids seated fits reached highest single
  refine ⟨⟨distinct, ids, seated, fits, reached, highest, single⟩, ?_, ?_⟩
  · exact (won (.seated 4 0) (by decide) rfl).1
  · exact back { Player.seated 2 (.ofNat 40) with folded := true } (by decide) (by decide)

end Showdown

end CardRoom
