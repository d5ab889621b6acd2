import Mathlib
import CardRoom.Pot.Showdown
import CardRoom.Proofs.Pot.Heirs

/-! # Shares of a pot

The winners of a pot are the contenders on its list whom nobody on the list beats. As soon as
one contender is on the list there is a winner, and then the payments make up the pot.
-/

namespace CardRoom

/-! ## The best score -/

theorem Score.max_eq (a b : Score) : max a b = if a ≤ b then b else a := rfl

/-- Scores found from the left, starting from a score that need not be among them. -/
theorem foldl_max_spec (contenders : List Contender) (start : Score) :
    let best := contenders.foldl (fun best c => max best c.score) start
    start ≤ best ∧ (∀ c ∈ contenders, c.score ≤ best) ∧
      (best = start ∨ ∃ c ∈ contenders, c.score = best) := by
  induction contenders generalizing start with
  | nil => exact ⟨Nat.le_refl start.points, by simp, .inl rfl⟩
  | cons c cs ih =>
      obtain ⟨above, all, reached⟩ := ih (max start c.score)
      have from_start : start ≤ max start c.score := by
        rw [Score.max_eq]
        split
        · assumption
        · exact Nat.le_refl start.points
      have from_here : c.score ≤ max start c.score := by
        rw [Score.max_eq]
        split
        · exact Nat.le_refl c.score.points
        · rename_i lower
          exact Nat.le_of_not_le lower
      refine ⟨Nat.le_trans from_start above, ?_, ?_⟩
      · intro d member
        rcases List.mem_cons.mp member with rfl | later
        · exact Nat.le_trans from_here above
        · exact all d later
      · rcases reached with same | ⟨d, member, same⟩
        · rw [List.foldl_cons, same, Score.max_eq]
          split
          · exact .inr ⟨c, List.mem_cons_self, rfl⟩
          · exact .inl rfl
        · exact .inr ⟨d, List.mem_cons_of_mem c member, same⟩

theorem score_le_bestScore {contenders : List Contender} {c : Contender}
    (member : c ∈ contenders) : c.score ≤ bestScore contenders :=
  (foldl_max_spec contenders 0).2.1 c member

/-- Somebody has the best score, for even a best score of zero is reached by everyone. -/
theorem exists_bestScore (contenders : List Contender) (someone : contenders ≠ []) :
    ∃ c ∈ contenders, c.score = bestScore contenders := by
  rcases (foldl_max_spec contenders 0).2.2 with nothing | reached
  · obtain ⟨c, member⟩ := List.exists_mem_of_ne_nil contenders someone
    have below : c.score ≤ bestScore contenders := score_le_bestScore member
    have none_scored : bestScore contenders = 0 := nothing
    refine ⟨c, member, Score.ext ?_⟩
    rw [none_scored] at below ⊢
    exact Nat.le_zero.mp below
  · exact reached

namespace Pot

variable {contenders : List Contender} {pot : Pot} {k : Nat}

/-! ## Winners -/

theorem mem_winners {c : Contender} :
    c ∈ pot.winners contenders ↔ c ∈ contenders ∧ c.playerId ∈ pot.eligible ∧
      ∀ d ∈ contenders, d.playerId ∈ pot.eligible → d.score ≤ c.score := by
  simp only [winners, List.mem_filter, List.contains_eq_mem, decide_eq_true_eq]
  constructor
  · rintro ⟨⟨member, listed⟩, best⟩
    refine ⟨member, listed, fun d other listed' => ?_⟩
    rw [best]
    exact score_le_bestScore (List.mem_filter.mpr ⟨other, by simpa using listed'⟩)
  · rintro ⟨member, listed, top⟩
    refine ⟨⟨member, listed⟩, Score.ext (Nat.le_antisymm ?_ ?_)⟩
    · exact score_le_bestScore (List.mem_filter.mpr ⟨member, by simpa using listed⟩)
    · obtain ⟨d, other, best⟩ := exists_bestScore
        (contenders.filter fun c => decide (c.playerId ∈ pot.eligible))
        (List.ne_nil_of_mem (List.mem_filter.mpr ⟨member, by simpa using listed⟩))
      rw [List.mem_filter, decide_eq_true_eq] at other
      rw [← best]
      exact top d other.1 other.2

theorem winners_ne_nil (contested : pot.isContested (contenders.map Contender.playerId) = true) :
    pot.winners contenders ≠ [] := by
  obtain ⟨id, listed, active⟩ := isContested_iff.mp contested
  obtain ⟨c, member, rfl⟩ := List.mem_map.mp active
  obtain ⟨best, top, same⟩ := exists_bestScore
    (contenders.filter fun c => pot.eligible.contains c.playerId)
    (List.ne_nil_of_mem (List.mem_filter.mpr ⟨member, by simpa using listed⟩))
  exact List.ne_nil_of_mem (List.mem_filter.mpr ⟨top, by simpa using same⟩)

/-! ## Payments -/

theorem payments_of_empty (empty : pot.amount = 0) : pot.payments contenders k = [] := by
  simp only [payments, empty, if_true]

/-- The first winner gets the rest on top of the share that everyone gets. -/
theorem payments_of_winners {w : Contender} {ws : List Contender} (filled : pot.amount ≠ 0)
    (won : pot.winners contenders = w :: ws) :
    let (share, rest) := pot.amount.split (ws.length + 1)
    pot.payments contenders k =
      ⟨w.position, k, w.playerId, share + rest, w.score⟩ ::
        ws.map fun v => ⟨v.position, k, v.playerId, share, v.score⟩ := by
  simp only [payments, filled, if_false, won, List.length_cons, List.mapIdx_cons, if_true]
  refine congrArg (List.cons _) (List.ext_getElem? fun i => ?_)
  rw [List.getElem?_mapIdx, List.getElem?_map]
  simp only [Nat.add_one_ne_zero, if_false]

/-- A settled pot is paid out to the last chip. -/
theorem tally_payments (settled : Settled (contenders.map Contender.playerId) pot) :
    tally ((pot.payments contenders k).map (·.award.amount.count)) = pot.amount.count := by
  by_cases empty : pot.amount = 0
  · rw [payments_of_empty empty, empty]
    rfl
  · cases won : pot.winners contenders with
    | nil => exact absurd won (winners_ne_nil (settled.resolve_left empty))
    | cons w ws =>
        have parts := pot.amount.count_split (ws.length + 1)
        have bound := pot.amount.le_cap
        have whole := payments_of_winners (k := k) empty won
        simp only at whole
        rw [whole, List.map_cons, tally_cons, List.map_map]
        simp only [Function.comp_def, Chips.count_add, tally_const]
        rw [Nat.mul_succ] at parts
        omega

theorem exists_winner_of_mem_payments {payment : Payment}
    (paid : payment ∈ pot.payments contenders k) :
    ∃ w ∈ pot.winners contenders, payment.position = w.position ∧
      payment.award.playerId = w.playerId ∧ payment.award.potIndex = k ∧
      payment.award.score = w.score := by
  unfold payments at paid
  split at paid
  · cases paid
  · obtain ⟨n, bound, rfl⟩ := List.mem_mapIdx.mp paid
    exact ⟨_, List.getElem_mem bound, rfl, rfl, rfl, rfl⟩

/-- What a player gets out of some payments, never cut off. -/
def wonBy (payments : List Payment) (id : PlayerId) : Nat :=
  tally ((payments.filter (·.award.playerId = id)).map (·.award.amount.count))

theorem tally_payments_le (contenders : List Contender) (k : Nat) (pot : Pot) :
    tally ((pot.payments contenders k).map (·.award.amount.count)) ≤ pot.amount.count := by
  by_cases settled : Settled (contenders.map Contender.playerId) pot
  · exact Nat.le_of_eq (tally_payments settled)
  · have nobody : pot.winners contenders = [] := by
      refine List.eq_nil_iff_forall_not_mem.mpr fun w won => settled (.inr ?_)
      obtain ⟨member, listed, -⟩ := mem_winners.mp won
      exact isContested_iff.mpr ⟨w.playerId, listed, List.mem_map_of_mem member⟩
    have nothing : pot.payments contenders k = [] := by
      unfold payments
      split
      · rfl
      · simp only [nobody, List.mapIdx_nil]
    rw [nothing]
    exact Nat.zero_le _

theorem wonBy_payments_le (contenders : List Contender) (k : Nat) (pot : Pot) (id : PlayerId) :
    wonBy (pot.payments contenders k) id ≤ if id ∈ pot.eligible then pot.amount.count else 0 := by
  split
  · exact Nat.le_trans (tally_filter_le _ _ _) (tally_payments_le contenders k pot)
  · rename_i unlisted
    have nothing : (pot.payments contenders k).filter (·.award.playerId = id) = [] := by
      refine List.filter_eq_nil_iff.mpr fun payment paid same => unlisted ?_
      obtain ⟨w, won, -, own, -⟩ := exists_winner_of_mem_payments paid
      rw [← show payment.award.playerId = id by simpa using same, own]
      exact (mem_winners.mp won).2.1
    rw [wonBy, nothing]
    exact Nat.le_refl 0

theorem wonBy_payments_of_best {c : Contender} (member : c ∈ contenders)
    (best : ∀ d ∈ contenders, d.playerId ≠ c.playerId → d.score < c.score) :
    wonBy (pot.payments contenders k) c.playerId =
      if c.playerId ∈ pot.eligible then pot.amount.count else 0 := by
  split
  · rename_i listed
    have every : (pot.payments contenders k).filter (·.award.playerId = c.playerId) =
        pot.payments contenders k := by
      apply List.filter_eq_self.mpr
      intro payment paid
      obtain ⟨w, won, -, own, -⟩ := exists_winner_of_mem_payments paid
      obtain ⟨contends, -, top⟩ := mem_winners.mp won
      rw [decide_eq_true_eq, own]
      by_contra other
      exact absurd (best w contends other) (Nat.not_lt_of_le (top c member listed))
    rw [wonBy, every]
    exact tally_payments (.inr (isContested_iff.mpr ⟨_, listed, List.mem_map_of_mem member⟩))
  · rename_i unlisted
    have bound := wonBy_payments_le contenders k pot c.playerId
    rw [if_neg unlisted] at bound
    exact Nat.le_zero.mp bound

end Pot

end CardRoom
