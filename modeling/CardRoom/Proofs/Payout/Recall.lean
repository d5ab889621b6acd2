import Mathlib
import CardRoom.Payout.Icm

/-! # Recalling expected payouts

Computing each set of remaining players once gives what the plain recursion gives, number for
number. A set says which players remain and so how many prizes are gone, and with that
everything on which the expected payouts depend. No law of the operations on numbers is used.
-/

namespace CardRoom.Icm

/-! ## Sets of players -/

namespace PlayerSet

variable {n place : Nat} {set : PlayerSet}

theorem getLsbD_first (fits : n < 32) (i : Nat) : (first n).getLsbD i = decide (i < n) := by
  have size : (first n).toNat = 2 ^ n - 1 := by
    have small : 2 ^ n < 2 ^ 32 := Nat.pow_lt_pow_right (by decide) fits
    have positive : 0 < 2 ^ n := Nat.two_pow_pos n
    simp only [first, BitVec.toNat_sub, BitVec.toNat_shiftLeft, BitVec.toNat_ofNat,
      Nat.shiftLeft_eq]
    omega
  rw [BitVec.getLsbD, size, Nat.testBit_two_pow_sub_one]

theorem places_first (fits : n < 32) : (first n).places n = List.range n := by
  apply List.filter_eq_self.mpr
  intro i inside
  rw [getLsbD_first fits]
  exact decide_eq_true (List.mem_range.mp inside)

theorem nodup_places (set : PlayerSet) (n : Nat) : (set.places n).Nodup :=
  List.nodup_range.filter _

theorem getLsbD_remove (set : PlayerSet) (place i : Nat) :
    (set.remove place).getLsbD i = (set.getLsbD i && decide (i ≠ place)) := by
  simp only [remove, BitVec.getLsbD_and, BitVec.getLsbD_not, BitVec.getLsbD_shiftLeft,
    BitVec.getLsbD_one]
  by_cases inside : i < 32
  · grind
  · simp [BitVec.getLsbD_of_ge set i (by omega)]

theorem length_places_le (set : PlayerSet) (n : Nat) : (set.places n).length ≤ n := by
  rw [places]
  simpa using List.length_filter_le set.getLsbD (List.range n)

/-- Without one of its players, a set has the others in the same order. -/
theorem places_remove {i : Nat} (here : (set.places n)[i]? = some place) :
    (set.remove place).places n = (set.places n).eraseIdx i := by
  obtain ⟨inside, at_place⟩ := List.getElem?_eq_some_iff.mp here
  calc (set.remove place).places n
      = (set.places n).filter (· != place) := by
        rw [places, places, List.filter_filter]
        apply List.filter_congr
        intro j _
        rw [getLsbD_remove, Bool.and_comm]
        grind
    _ = (set.places n).erase place := ((set.nodup_places n).erase_eq_filter place).symm
    _ = (set.places n).eraseIdx i := by
        rw [← at_place]
        exact (set.nodup_places n).erase_getElem i inside

end PlayerSet

/-! ## What is known of a set -/

/-- A fold that carries something along makes the same steps as one that does not, as long as
what is carried is good enough for the next step. -/
theorem foldl_carrying {α σ κ : Type} {Good : κ → Prop} {carrying : σ × κ → α → σ × κ}
    {plain : σ → α → σ} {xs : List α}
    (step : ∀ x ∈ xs, ∀ s k, Good k →
      (carrying (s, k) x).1 = plain s x ∧ Good (carrying (s, k) x).2)
    (s : σ) {k : κ} (good : Good k) :
    (xs.foldl carrying (s, k)).1 = xs.foldl plain s ∧ Good (xs.foldl carrying (s, k)).2 := by
  induction xs generalizing s k with
  | nil => exact ⟨rfl, good⟩
  | cons x xs ih =>
      obtain ⟨same, still_good⟩ := step x List.mem_cons_self s k good
      rw [List.foldl_cons, List.foldl_cons, ← same]
      exact ih (fun y member => step y (List.mem_cons_of_mem x member)) _ still_good

section

variable {R : Type} [NatCast R] {holdings : List R} {set : PlayerSet}

/-- The stacks of the players in a set, in the order of their places. -/
def stacksOf (holdings : List R) (set : PlayerSet) : List R :=
  (set.places holdings.length).map (stackAt holdings)

theorem stacksOf_first (fits : holdings.length < 32) :
    stacksOf holdings (PlayerSet.first holdings.length) = holdings := by
  rw [stacksOf, PlayerSet.places_first fits]
  apply List.ext_getElem
  · simp
  · intro i first second
    simp [stackAt, second]

theorem stacksOf_remove {place i : Nat} (here : (set.places holdings.length)[i]? = some place) :
    stacksOf holdings (set.remove place) = (stacksOf holdings set).eraseIdx i := by
  rw [stacksOf, PlayerSet.places_remove here, stacksOf, List.eraseIdx_map]

end

section

variable {R : Type} {holdings prizes rest : List R} {set : PlayerSet}

/-- The prizes that are left when the players in a set remain. -/
def prizesLeft (holdings prizes : List R) (set : PlayerSet) : List R :=
  prizes.drop (holdings.length - (set.places holdings.length).length)

theorem prizesLeft_first (fits : holdings.length < 32) :
    prizesLeft holdings prizes (PlayerSet.first holdings.length) = prizes := by
  rw [prizesLeft, PlayerSet.places_first fits, List.length_range, Nat.sub_self, List.drop_zero]

/-- One player fewer remains, so one prize more is gone. -/
theorem prizesLeft_remove {prize : R} {place i : Nat}
    (left : prizesLeft holdings prizes set = prize :: rest)
    (here : (set.places holdings.length)[i]? = some place) :
    prizesLeft holdings prizes (set.remove place) = rest := by
  have inside := (List.getElem?_eq_some_iff.mp here).1
  have few := set.length_places_le holdings.length
  have gone : holdings.length - ((set.places holdings.length).length - 1) =
      holdings.length - (set.places holdings.length).length + 1 := by omega
  rw [prizesLeft] at left
  rw [prizesLeft, PlayerSet.places_remove here, List.length_eraseIdx_of_lt inside, gone,
    ← List.drop_drop, left]
  rfl

end

section

variable {R : Type} [Add R] [Mul R] [Div R] [NatCast R] {holdings prizes rest : List R}
  {set : PlayerSet} {known : Known R}

/-- Whatever is known of a set is what the plain recursion gives for its players and the prizes
that are left to them. -/
def Sound (holdings prizes : List R) (known : Known R) : Prop :=
  ∀ set sums, known[set]? = some sums →
    sums = expectations (prizesLeft holdings prizes set) (stacksOf holdings set)

theorem Sound.empty (holdings prizes : List R) : Sound holdings prizes ∅ := by
  intro set sums found
  simp at found

theorem Sound.insert (sound : Sound holdings prizes known) {sums : List R}
    (plain : sums = expectations (prizesLeft holdings prizes set) (stacksOf holdings set)) :
    Sound holdings prizes (known.insert set sums) := by
  intro other found_sums found
  rw [Std.HashMap.getElem?_insert] at found
  split at found
  · rename_i same
    obtain rfl : set = other := by simpa using same
    cases found
    exact plain
  · exact sound other found_sums found

/-! ## One player's turn -/

/-- What the plain recursion does with the player of a stack at a position. -/
def plainTurn (prize : R) (rest holdings sums : List R) (player : R × Nat) : List R :=
  let chance := player.1 / total holdings
  let sums := takePrize prize chance player.2 sums
  if rest.isEmpty then sums
  else shareRest chance player.2 (expectations rest (holdings.eraseIdx player.2)) sums

theorem expectations_cons (prize : R) (rest holdings : List R) :
    expectations (prize :: rest) holdings =
      holdings.zipIdx.foldl (plainTurn prize rest holdings) (zeros holdings.length) := by
  rw [expectations]
  rfl

/-- What is done with the player at a place, who has a position among those of his set. -/
def recallingTurn (holdings : List R) (prize : R) (rest : List R) (set : PlayerSet)
    (state : List R × Known R) (player : Nat × Nat) : List R × Known R :=
  let chance := stackAt holdings player.1 / total (stacksOf holdings set)
  let sums := takePrize prize chance player.2 state.1
  if rest.isEmpty then (sums, state.2)
  else
    let (others, known) := recalled holdings rest (set.remove player.1) state.2
    (shareRest chance player.2 others sums, known)

theorem recalled_of_known {prize : R} {sums : List R} (found : known[set]? = some sums) :
    recalled holdings (prize :: rest) set known = (sums, known) := by
  simp only [recalled, found]

theorem recalled_of_unknown {prize : R} (absent : known[set]? = none) :
    recalled holdings (prize :: rest) set known =
      let after := (set.places holdings.length).zipIdx.foldl
        (recallingTurn holdings prize rest set) (zeros (set.places holdings.length).length, known)
      (after.1, after.2.insert set after.1) := by
  simp only [recalled, absent]
  rfl

/-- What is recalled for some prizes is what the plain recursion gives, and so is everything
known afterwards. -/
def Recalls (holdings prizes rest : List R) : Prop :=
  ∀ set known, prizesLeft holdings prizes set = rest → Sound holdings prizes known →
    (recalled holdings rest set known).1 = expectations rest (stacksOf holdings set) ∧
      Sound holdings prizes (recalled holdings rest set known).2

theorem recallingTurn_sound (deeper : Recalls holdings prizes rest) {prize : R}
    (left : prizesLeft holdings prizes set = prize :: rest) {place i : Nat}
    (here : (set.places holdings.length)[i]? = some place) (sums : List R)
    (sound : Sound holdings prizes known) :
    (recallingTurn holdings prize rest set (sums, known) (place, i)).1 =
        plainTurn prize rest (stacksOf holdings set) sums (stackAt holdings place, i) ∧
      Sound holdings prizes
        (recallingTurn holdings prize rest set (sums, known) (place, i)).2 := by
  obtain ⟨same, still_sound⟩ := deeper _ known (prizesLeft_remove left here) sound
  rw [stacksOf_remove here] at same
  unfold recallingTurn plainTurn
  cases rest with
  | nil => exact ⟨rfl, sound⟩
  | cons next rest =>
      constructor
      · simp only [List.isEmpty_cons, Bool.false_eq_true, if_false, same]
      · exact still_sound

theorem recalls_nil (holdings prizes : List R) : Recalls holdings prizes [] := by
  intro set known _ sound
  exact ⟨by simp [recalled, expectations, stacksOf], sound⟩

theorem Recalls.cons (deeper : Recalls holdings prizes rest) (prize : R) :
    Recalls holdings prizes (prize :: rest) := by
  intro set known left sound
  cases found : known[set]? with
  | some sums =>
      rw [recalled_of_known found, ← left]
      exact ⟨sound set sums found, sound⟩
  | none =>
      have each : ∀ player ∈ (set.places holdings.length).zipIdx, ∀ sums known,
          Sound holdings prizes known →
            (recallingTurn holdings prize rest set (sums, known) player).1 =
                plainTurn prize rest (stacksOf holdings set) sums
                  (player.map (stackAt holdings) id) ∧
              Sound holdings prizes
                (recallingTurn holdings prize rest set (sums, known) player).2 := by
        intro player member sums known sound
        exact recallingTurn_sound deeper left (List.mem_zipIdx_iff_getElem?.mp member) sums sound
      obtain ⟨same, still_sound⟩ :=
        foldl_carrying each (zeros (set.places holdings.length).length) sound
      have plain : expectations (prize :: rest) (stacksOf holdings set) =
          ((set.places holdings.length).zipIdx.foldl (recallingTurn holdings prize rest set)
            (zeros (set.places holdings.length).length, known)).1 := by
        rw [expectations_cons, same, stacksOf, List.length_map, List.zipIdx_map, List.foldl_map]
      rw [recalled_of_unknown found, plain]
      refine ⟨rfl, still_sound.insert ?_⟩
      rw [left, plain]

theorem recalls (holdings prizes rest : List R) : Recalls holdings prizes rest := by
  induction rest with
  | nil => exact recalls_nil holdings prizes
  | cons prize rest ih => exact ih.cons prize

/-- As long as a set has a bit for each player, dividing prizes performs the operations of the
plain recursion. -/
theorem divide_of_lt {holdings prizes : List Nat} (fits : holdings.length < 32) :
    (divide holdings prizes : List R) =
      expectations (prizes.map Nat.cast) (holdings.map Nat.cast) := by
  rw [← List.length_map (Nat.cast : Nat → R)] at fits
  have first := recalls (holdings.map Nat.cast) (prizes.map Nat.cast : List R)
    (prizes.map Nat.cast) _ ∅ (prizesLeft_first fits) (Sound.empty _ _)
  rw [stacksOf_first fits, List.length_map] at first
  exact first.1

end

theorem check_eq_ok_iff {holdings prizes : List Nat} {limit : Nat} :
    check holdings prizes limit = .ok () ↔
      holdings ≠ [] ∧ (∀ n ∈ holdings, n ≠ 0) ∧ holdings.length ≤ min limit maxPlayers ∧
        prizes.length ≤ holdings.length := by
  unfold check
  cases found : holdings.findIdx? (· == 0) with
  | some place =>
      obtain ⟨bound, broke, -⟩ := List.findIdx?_eq_some_iff_getElem.mp found
      have refused : ¬ ∀ n ∈ holdings, n ≠ 0 := fun positive =>
        positive _ (List.getElem_mem bound) (eq_of_beq broke)
      grind
  | none =>
      have positive : ∀ n ∈ holdings, n ≠ 0 := fun n member =>
        ne_of_beq_false (List.findIdx?_eq_none_iff.mp found n member)
      grind

theorem length_le_of_check {holdings prizes : List Nat} {limit : Nat}
    (accepted : check holdings prizes limit = .ok ()) : holdings.length ≤ maxPlayers :=
  (check_eq_ok_iff.mp accepted).2.2.1.trans (Nat.min_le_right ..)

/-- Whatever the operations on numbers do, dividing accepted prizes performs them as the plain
recursion does. -/
theorem divide_eq_expectations {R : Type} [Add R] [Mul R] [Div R] [NatCast R]
    {holdings prizes : List Nat} {limit : Nat}
    (accepted : check holdings prizes limit = .ok ()) :
    (divide holdings prizes : List R) =
      expectations (prizes.map Nat.cast) (holdings.map Nat.cast) := by
  have few := length_le_of_check accepted
  rw [maxPlayers] at few
  exact divide_of_lt (Nat.lt_of_le_of_lt few (by decide))

theorem divide_eq_expectations_threeWay :
    check [500, 300, 200] [600, 300, 100] maxPlayers = .ok () ∧
      (divide [500, 300, 200] [600, 300, 100] : List Float) =
        expectations ([600, 300, 100].map Nat.cast) ([500, 300, 200].map Nat.cast) := by
  have accepted : check [500, 300, 200] [600, 300, 100] maxPlayers = .ok () := rfl
  exact ⟨accepted, divide_eq_expectations accepted⟩

end CardRoom.Icm
