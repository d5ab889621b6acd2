import Mathlib
import CardRoom.Proofs.Pot.Shares

/-! # The account of a showdown

Refunds and payments are credits to places in the seating. Crediting changes nothing but
stacks, and within the cap it adds up exactly. A showdown with somebody active credits the
refunds, then the payments, and together they are the chips at stake.
-/

namespace CardRoom

/-! ## Credits -/

/-- Chips for the player at a place in the seating. -/
structure Credit where
  position : Nat
  amount : Chips

/-- All stacks, never cut off. -/
def held (players : List Player) : Nat := tally (players.map (·.stack.count))

def creditAll (players : List Player) (credits : List Credit) : List Player :=
  credits.foldl (fun players c => players.modify c.position (·.receive c.amount)) players

@[simp] theorem Player.count_stack_receive (p : Player) (c : Chips) :
    (p.receive c).stack.count = min (p.stack.count + c.count) cap := rfl

theorem map_id_modify_receive (players : List Player) (i : Nat) (c : Chips) :
    (players.modify i (·.receive c)).map Player.id = players.map Player.id := by
  induction players generalizing i with
  | nil => cases i <;> rfl
  | cons p ps ih =>
      cases i with
      | zero => rfl
      | succ i => simp only [List.modify_succ_cons, List.map_cons, ih]

theorem held_creditAll {players : List Player} {credits : List Credit}
    (inside : ∀ c ∈ credits, c.position < players.length)
    (fits : held players + tally (credits.map (·.amount.count)) ≤ cap) :
    held (creditAll players credits) = held players + tally (credits.map (·.amount.count)) := by
  induction credits generalizing players with
  | nil => rfl
  | cons c credits ih =>
      obtain ⟨p, here⟩ : ∃ p, players[c.position]? = some p :=
        ⟨_, List.getElem?_eq_getElem (inside c List.mem_cons_self)⟩
      have received := tally_modify (·.stack.count) (·.receive c.amount) here
      have own : p.stack.count ≤ held players :=
        le_tally (List.mem_map_of_mem (List.mem_of_getElem? here))
      have raised : held (players.modify c.position (·.receive c.amount)) =
          held players + c.amount.count := by
        simp only [List.map_cons, tally_cons, Player.count_stack_receive] at fits received
        simp only [held] at *
        omega
      simp only [List.map_cons, tally_cons] at fits ⊢
      rw [creditAll, List.foldl_cons, ← creditAll, ih, raised, Nat.add_assoc]
      · intro d later
        rw [List.length_modify]
        exact inside d (List.mem_cons_of_mem c later)
      · rw [raised]
        omega

theorem map_id_creditAll (players : List Player) (credits : List Credit) :
    (creditAll players credits).map Player.id = players.map Player.id := by
  induction credits generalizing players with
  | nil => rfl
  | cons c credits ih =>
      rw [creditAll, List.foldl_cons, ← creditAll, ih, map_id_modify_receive]

/-- Refunds are credits to the first player of each id, since they change no id. -/
theorem foldl_giveBack (players : List Player) (refunds : List (PlayerId × Chips)) :
    refunds.foldl Showdown.giveBack players =
      creditAll players (refunds.map fun r => ⟨players.findIdx (·.id = r.1), r.2⟩) := by
  suffices same : ∀ now : List Player, now.map Player.id = players.map Player.id →
      refunds.foldl Showdown.giveBack now =
        creditAll now (refunds.map fun r => ⟨players.findIdx (·.id = r.1), r.2⟩) from
    same players rfl
  induction refunds with
  | nil => exact fun _ _ => rfl
  | cons r refunds ih =>
      intro now ids
      have place : now.findIdx (·.id = r.1) = players.findIdx (·.id = r.1) := by
        have by_ids := congrArg (List.findIdx fun id => decide (id = r.1)) ids
        simpa only [List.findIdx_map, Function.comp_def] using by_ids
      rw [List.foldl_cons, List.map_cons, creditAll, List.foldl_cons, ← creditAll,
        ← ih _ (by rw [map_id_modify_receive, ids]), Showdown.giveBack, place]

theorem foldl_pay (players : List Player) (payments : List Payment) :
    payments.foldl Showdown.pay players =
      creditAll players (payments.map fun p => ⟨p.position, p.award.amount⟩) := by
  rw [creditAll, List.foldl_map]
  rfl

theorem creditAll_append (players : List Player) (first second : List Credit) :
    creditAll players (first ++ second) = creditAll (creditAll players first) second :=
  List.foldl_append

namespace Showdown

/-! ## Contenders -/

theorem mem_contenders {judge : Judge} {s : Showdown} {c : Contender} :
    c ∈ s.contenders judge ↔ ∃ p, s.players[c.position]? = some p ∧ p.folded = false ∧
      c.playerId = p.id ∧ c.score = p.score judge s.board := by
  simp only [contenders, List.mem_filterMap, List.mem_zipIdx_iff_getElem?, Prod.exists,
    Option.ite_none_left_eq_some, Option.some.injEq, Bool.not_eq_true]
  constructor
  · rintro ⟨p, i, here, active, rfl⟩
    exact ⟨p, here, active, rfl, rfl⟩
  · rintro ⟨p, here, active, same_id, same_score⟩
    refine ⟨p, c.position, here, active, ?_⟩
    rw [← same_id, ← same_score]

theorem contends_of_getElem? (judge : Judge) {s : Showdown} {i : Nat} {p : Player}
    (here : s.players[i]? = some p) (playing : p.folded = false) :
    ⟨i, p.id, p.score judge s.board⟩ ∈ s.contenders judge :=
  mem_contenders.mpr ⟨p, here, playing, rfl, rfl⟩

theorem contenders_eq_nil {judge : Judge} {s : Showdown} :
    s.contenders judge = [] ↔ ∀ p ∈ s.players, p.folded = true := by
  constructor
  · intro nobody p member
    obtain ⟨i, bound, rfl⟩ := List.mem_iff_getElem.mp member
    by_contra active
    have contends := contends_of_getElem? judge (List.getElem?_eq_getElem bound)
      (by simpa using active)
    rw [nobody] at contends
    exact List.not_mem_nil contends
  · intro folded
    apply List.eq_nil_iff_forall_not_mem.mpr
    intro c contends
    obtain ⟨p, here, active, -⟩ := mem_contenders.mp contends
    rw [folded p (List.mem_of_getElem? here)] at active
    cases active

/-! ## What a showdown pays -/

def active (judge : Judge) (s : Showdown) : List PlayerId :=
  (s.contenders judge).map Contender.playerId

theorem mem_active {judge : Judge} {s : Showdown} {id : PlayerId} :
    id ∈ s.active judge ↔ ∃ p ∈ s.players, p.folded = false ∧ p.id = id := by
  rw [active, List.mem_map]
  constructor
  · rintro ⟨c, contends, rfl⟩
    obtain ⟨p, here, active, same, -⟩ := mem_contenders.mp contends
    exact ⟨p, List.mem_of_getElem? here, active, same.symm⟩
  · rintro ⟨p, member, active, rfl⟩
    obtain ⟨i, here⟩ := List.mem_iff_getElem?.mp member
    exact ⟨_, contends_of_getElem? judge here active, rfl⟩

def refunds (judge : Judge) (s : Showdown) : List (PlayerId × Chips) :=
  Pot.refunds (s.active judge) (s.pots (s.active judge))

def payments (judge : Judge) (s : Showdown) : List Payment :=
  (Pot.resolve (s.active judge) (s.pots (s.active judge))).zipIdx.flatMap fun (pot, k) =>
    pot.payments (s.contenders judge) k

/-- The credits of a showdown, in the order in which they are given. -/
def credits (judge : Judge) (s : Showdown) : List Credit :=
  (s.refunds judge).map (fun r => ⟨s.players.findIdx (·.id = r.1), r.2⟩) ++
    (s.payments judge).map fun p => ⟨p.position, p.award.amount⟩

/-- All chips of a showdown, never cut off. -/
def allChips (s : Showdown) : Nat :=
  held s.players + (s.pot.count + tally (s.sidePots.map (·.amount.count)))

variable {judge : Judge} {s : Showdown}

theorem settle_of_nobody (nobody : ∀ p ∈ s.players, p.folded = true) :
    s.settle judge = (s, {}) := by
  simp only [settle, contenders_eq_nil.mpr nobody, List.isEmpty_nil, if_true]

theorem contenders_ne_nil (judge : Judge) (someone : ∃ p ∈ s.players, p.folded = false) :
    s.contenders judge ≠ [] := by
  obtain ⟨p, member, active⟩ := someone
  intro nobody
  rw [contenders_eq_nil.mp nobody p member] at active
  cases active

theorem active_ne_nil (judge : Judge) (someone : ∃ p ∈ s.players, p.folded = false) :
    s.active judge ≠ [] := by
  simpa [active] using contenders_ne_nil judge someone

/-- With somebody active, a showdown credits its refunds and its payments and clears the table. -/
theorem settle_of_someone (someone : ∃ p ∈ s.players, p.folded = false) :
    s.settle judge =
      ({ s with players := creditAll s.players (s.credits judge), pot := 0, sidePots := [] },
        { awards := (s.payments judge).map Payment.award
          scores := (s.contenders judge).map fun c => (c.playerId, c.score)
          refunds := s.refunds judge }) := by
  have nonempty : (s.contenders judge).isEmpty = false := by
    simpa using contenders_ne_nil judge someone
  simp only [settle, nonempty, Bool.false_eq_true, if_false, credits, creditAll_append,
    ← foldl_giveBack, ← foldl_pay]
  rfl

theorem refunds_settle (someone : ∃ p ∈ s.players, p.folded = false) :
    (s.settle judge).2.refunds = s.refunds judge := by
  rw [settle_of_someone someone]

theorem pots_cases (active : List PlayerId) (s : Showdown) :
    s.pots active = s.sidePots.map (fun side => ⟨side.amount, side.players⟩) ∨
      s.pots active = s.sidePots.map (fun side => ⟨side.amount, side.players⟩) ++
        [⟨s.pot, active⟩] :=
  (ite_eq_or_eq _ _ _).symm

theorem total_pots (active : List PlayerId) (s : Showdown) :
    Pot.total (s.pots active) = s.pot.count + tally (s.sidePots.map (·.amount.count)) := by
  simp only [pots, Pot.total]
  split
  · simp only [List.map_append, List.map_map, Function.comp_def, tally_append, List.map_cons,
      List.map_nil, tally_cons, tally_nil]
    omega
  · rename_i plain
    have empty : s.pot = 0 := by
      by_contra filled
      simp [filled] at plain
    simp only [List.map_map, Function.comp_def, empty, Chips.count_zero, Nat.zero_add]

theorem total_pots_le (active : List PlayerId) (fits : s.allChips ≤ cap) :
    Pot.total (s.pots active) ≤ cap := by
  rw [total_pots]
  exact (Nat.le_add_left _ _).trans fits

theorem count_atStake (fits : s.allChips ≤ cap) :
    s.atStake.count = s.pot.count + tally (s.sidePots.map (·.amount.count)) := by
  simp only [allChips] at fits
  simp only [atStake, Chips.count_add, Chips.count_sum, List.map_map, Function.comp_def]
  omega

theorem tally_payments (someone : ∃ p ∈ s.players, p.folded = false) (fits : s.allChips ≤ cap) :
    tally ((s.payments judge).map (·.award.amount.count)) =
      Pot.total (Pot.resolve (s.active judge) (s.pots (s.active judge))) := by
  have within := total_pots_le (s.active judge) fits
  have each : ∀ entry ∈ (Pot.resolve (s.active judge) (s.pots (s.active judge))).zipIdx,
      tally ((entry.1.payments (s.contenders judge) entry.2).map (·.award.amount.count)) =
        entry.1.amount.count := by
    intro entry member
    have resolved := List.fst_mem_of_mem_zipIdx member
    exact Pot.tally_payments (Pot.settled_of_mem_resolve (active_ne_nil judge someone) within resolved)
  rw [payments, tally_flatMap, List.map_congr_left each, Pot.total]
  conv_rhs => rw [← List.zipIdx_map_fst 0 (Pot.resolve _ _), List.map_map]
  rfl

theorem tally_credits (judge : Judge) (someone : ∃ p ∈ s.players, p.folded = false)
    (fits : s.allChips ≤ cap) :
    tally ((s.refunds judge).map (·.2.count)) +
      tally ((s.payments judge).map (·.award.amount.count)) = s.atStake.count := by
  have within := total_pots_le (s.active judge) fits
  rw [tally_payments someone fits, refunds, Pot.total_resolve (active_ne_nil judge someone) within,
    total_pots, count_atStake fits]

theorem wonBy_payments (id : PlayerId) :
    Pot.wonBy (s.payments judge) id =
      tally ((Pot.resolve (s.active judge) (s.pots (s.active judge))).zipIdx.map fun (pot, k) =>
        Pot.wonBy (pot.payments (s.contenders judge) k) id) := by
  rw [Pot.wonBy, payments, List.filter_flatMap, tally_flatMap]
  rfl

/-- The pots, after resolving, on whose lists a player is. -/
def listing (judge : Judge) (s : Showdown) (id : PlayerId) : List Pot :=
  (Pot.resolve (s.active judge) (s.pots (s.active judge))).filter (id ∈ ·.eligible)

theorem total_listing (id : PlayerId) :
    Pot.total (s.listing judge id) =
      tally ((Pot.resolve (s.active judge) (s.pots (s.active judge))).zipIdx.map fun entry =>
        if id ∈ entry.1.eligible then entry.1.amount.count else 0) := by
  rw [Pot.total, listing, tally_filter]
  conv_lhs => rw [← List.zipIdx_map_fst 0 (Pot.resolve _ _), List.map_map]
  simp only [Function.comp_def, decide_eq_true_eq]

theorem wonBy_le_total_listing (id : PlayerId) :
    Pot.wonBy (s.payments judge) id ≤ Pot.total (s.listing judge id) := by
  rw [wonBy_payments, total_listing]
  exact tally_le_tally fun entry _ => Pot.wonBy_payments_le _ _ _ id

theorem wonBy_of_best {c : Contender} (contends : c ∈ s.contenders judge)
    (best : ∀ d ∈ s.contenders judge, d.playerId ≠ c.playerId → d.score < c.score) :
    Pot.wonBy (s.payments judge) c.playerId = Pot.total (s.listing judge c.playerId) := by
  rw [wonBy_payments, total_listing]
  exact congrArg tally
    (List.map_congr_left fun entry _ => Pot.wonBy_payments_of_best contends best)

theorem count_winnings (someone : ∃ p ∈ s.players, p.folded = false) (id : PlayerId) :
    ((s.settle judge).2.winnings id).count = min (Pot.wonBy (s.payments judge) id) cap := by
  rw [settle_of_someone someone, Settlement.winnings, Chips.count_sum, Pot.wonBy, List.filter_map,
    List.map_map, List.map_map]
  rfl

/-- A payment goes to the place of a player in play, and its award names him. -/
theorem exists_player_of_mem_payments {payment : Payment} (paid : payment ∈ s.payments judge) :
    ∃ p, s.players[payment.position]? = some p ∧ p.folded = false ∧
      payment.award.playerId = p.id := by
  obtain ⟨entry, -, paid⟩ := List.mem_flatMap.mp paid
  obtain ⟨w, won, place, named, -⟩ := Pot.exists_winner_of_mem_payments paid
  obtain ⟨p, here, active, same, -⟩ := mem_contenders.mp (Pot.mem_winners.mp won).1
  exact ⟨p, place ▸ here, active, named.trans same⟩

theorem payments_of_nobody (nobody : ∀ p ∈ s.players, p.folded = true) : s.payments judge = [] := by
  refine List.eq_nil_iff_forall_not_mem.mpr fun payment paid => ?_
  obtain ⟨p, here, playing, -⟩ := exists_player_of_mem_payments paid
  rw [nobody p (List.mem_of_getElem? here)] at playing
  cases playing

/-- The awards are those of the payments, and the payments are what the stacks get beside the
refunds. -/
theorem settle_pays (judge : Judge) (s : Showdown) :
    (s.settle judge).2.awards = (s.payments judge).map Payment.award ∧
      (s.settle judge).1.players =
        (s.payments judge).foldl pay ((s.settle judge).2.refunds.foldl giveBack s.players) := by
  by_cases someone : ∃ p ∈ s.players, p.folded = false
  · rw [settle_of_someone someone]
    refine ⟨rfl, ?_⟩
    rw [foldl_giveBack, foldl_pay, credits, creditAll_append]
  · have nobody : ∀ p ∈ s.players, p.folded = true := by simpa using someone
    rw [settle_of_nobody nobody, payments_of_nobody nobody]
    exact ⟨rfl, rfl⟩

theorem position_lt_of_mem_payments {payment : Payment} (paid : payment ∈ s.payments judge) :
    payment.position < s.players.length := by
  obtain ⟨p, here, -⟩ := exists_player_of_mem_payments paid
  exact (List.getElem?_eq_some_iff.mp here).1

/-- What goes back are the filled side pots of a single player who is not active; the plain pot
lists the active. -/
theorem mem_refunds {refund : PlayerId × Chips} :
    refund ∈ s.refunds judge ↔ ∃ side ∈ s.sidePots, side.players = [refund.1] ∧
      side.amount = refund.2 ∧ refund.2 ≠ 0 ∧ refund.1 ∉ s.active judge := by
  rw [refunds, Pot.refunds, List.mem_filterMap]
  constructor
  · rintro ⟨p, member, found⟩
    obtain ⟨alone, amount, filled, idle⟩ := Pot.refund?_eq_some.mp found
    have origin : (∃ side ∈ s.sidePots, ⟨side.amount, side.players⟩ = p) ∨
        p = ⟨s.pot, s.active judge⟩ := by
      rcases pots_cases (s.active judge) s with plain | extended
      · exact .inl (by simpa [plain] using member)
      · simpa [extended] using member
    rcases origin with ⟨side, listed, rfl⟩ | rfl
    · exact ⟨side, listed, alone, amount.symm, amount ▸ filled, idle⟩
    · rw [show s.active judge = [refund.1] from alone] at idle
      exact absurd List.mem_cons_self idle
  · rintro ⟨side, listed, alone, amount, filled, idle⟩
    refine ⟨⟨side.amount, side.players⟩, ?_,
      Pot.refund?_eq_some.mpr ⟨alone, amount.symm, amount ▸ filled, idle⟩⟩
    have member := List.mem_map_of_mem
      (f := fun side : SidePot => (⟨side.amount, side.players⟩ : Pot)) listed
    rcases pots_cases (s.active judge) s with plain | extended
    · exact plain ▸ member
    · exact extended ▸ List.mem_append_left _ member

end Showdown

end CardRoom
