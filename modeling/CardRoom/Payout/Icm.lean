import Std.Data.HashMap
import CardRoom.Payout.Remainder

/-! # The independent chip model

Stacks and prizes give each player an expected payout. A player takes the highest remaining
prize with the chance of the stack's share in all remaining stacks, and the other players divide
the other prizes by the same rule. `expectations` is this recursion as it stands; `recalled`
computes each set of remaining players once. Both take the operations on numbers as they come
and perform the same ones in the same order.
-/

namespace CardRoom.Icm

def maxPlayers : Nat := 20

inductive Refusal where
  | noStacks
  | stackNotPositive (place : Nat)
  | tooManyPlayers (players limit : Nat)
  | morePrizesThanPlayers (prizes players : Nat)
  deriving DecidableEq, Repr

def Refusal.message : Refusal → String
  | .noStacks => "ICM needs at least one stack"
  | .stackNotPositive place => s!"Stack at position {place} must be positive"
  | .tooManyPlayers players limit => s!"Too many players for ICM: {players} > {limit}"
  | .morePrizesThanPlayers prizes players =>
    s!"More prize slots ({prizes}) than players ({players})"

/-- Accepts positive stacks, some but not too many, and at most one prize for each. -/
def check (holdings prizes : List Nat) (limit : Nat) : Except Refusal Unit :=
  let most := min limit maxPlayers
  if holdings.isEmpty then .error .noStacks
  else
    match holdings.findIdx? (· == 0) with
    | some place => .error (.stackNotPositive place)
    | none =>
      if most < holdings.length then .error (.tooManyPlayers holdings.length most)
      else if holdings.length < prizes.length then
        .error (.morePrizesThanPlayers prizes.length holdings.length)
      else .ok ()

/-- A set of players, one bit for each. There are never more players than bits. -/
abbrev PlayerSet := BitVec 32

namespace PlayerSet

/-- The players at the first `n` places. -/
def first (n : Nat) : PlayerSet := (1#32 <<< n) - 1#32

def remove (set : PlayerSet) (place : Nat) : PlayerSet := set &&& ~~~(1#32 <<< place)

/-- The places in the set below `n`, going up. -/
def places (set : PlayerSet) (n : Nat) : List Nat := (List.range n).filter set.getLsbD

end PlayerSet

section

variable {R : Type} [Add R] [Mul R] [Div R] [NatCast R]

def zeros (n : Nat) : List R := List.replicate n ((0 : Nat) : R)

/-- All stacks together, added from the left. -/
def total (holdings : List R) : R := holdings.foldl (· + ·) ((0 : Nat) : R)

/-- The sums after the player at `i` takes the prize with the given chance. -/
def takePrize (prize chance : R) (i : Nat) (sums : List R) : List R :=
  sums.modify i (· + prize * chance)

/-- The sums after the others have divided what is left, each with the given chance. -/
def shareRest (chance : R) (i : Nat) (others sums : List R) : List R :=
  match sums[i]? with
  | none => sums
  | some own =>
    (List.zipWith (fun sum other => sum + other * chance) (sums.eraseIdx i) others).insertIdx i own

/-- The stack of the player at a place, with none beyond the last. -/
def stackAt (holdings : List R) (place : Nat) : R := holdings.getD place ((0 : Nat) : R)

/-- The expected payouts for prizes in descending order of place. Nothing is added for the others
once the last prize is taken. -/
def expectations : List R → List R → List R
  | [], holdings => zeros holdings.length
  | prize :: rest, holdings =>
    holdings.zipIdx.foldl
      (fun sums (stack, i) =>
        let chance := stack / total holdings
        let sums := takePrize prize chance i sums
        if rest.isEmpty then sums
        else shareRest chance i (expectations rest (holdings.eraseIdx i)) sums)
      (zeros holdings.length)

/-- The expected payouts of the sets of remaining players met so far. How many players remain
says how many prizes are gone. -/
abbrev Known (R : Type) := Std.HashMap PlayerSet (List R)

/-- The expected payouts of the players in `set`, with everything met on the way. -/
def recalled (holdings : List R) : List R → PlayerSet → Known R → List R × Known R
  | [], set, known => (zeros (set.places holdings.length).length, known)
  | prize :: rest, set, known =>
    match known[set]? with
    | some sums => (sums, known)
    | none =>
      let places := set.places holdings.length
      let all := total (places.map (stackAt holdings))
      let (sums, known) := places.zipIdx.foldl
        (fun (sums, known) (place, i) =>
          let chance := stackAt holdings place / all
          let sums := takePrize prize chance i sums
          if rest.isEmpty then (sums, known)
          else
            let (others, known) := recalled holdings rest (set.remove place) known
            (shareRest chance i others sums, known))
        (zeros places.length, known)
      (sums, known.insert set sums)

/-- The expected payouts of stacks and prizes that have been accepted. -/
def divide (holdings prizes : List Nat) : List R :=
  (recalled (holdings.map Nat.cast) (prizes.map Nat.cast) (PlayerSet.first holdings.length) ∅).1

end

@[simp] theorem length_zeros {R : Type} [NatCast R] (n : Nat) :
    (zeros n : List R).length = n := by
  simp [zeros]

@[simp] theorem length_takePrize {R : Type} [Add R] [Mul R] (prize chance : R) (i : Nat)
    (sums : List R) : (takePrize prize chance i sums).length = sums.length := by
  simp [takePrize]

theorem length_shareRest {R : Type} [Add R] [Mul R] (chance : R) (i : Nat) {others sums : List R}
    (aligned : others.length + 1 = sums.length) :
    (shareRest chance i others sums).length = sums.length := by
  unfold shareRest
  split
  · rfl
  · next own found =>
    have inside : i < sums.length := (List.getElem?_eq_some_iff.mp found).1
    simp only [List.length_insertIdx, List.length_zipWith, List.length_eraseIdx, inside, if_true]
    split <;> omega

/-- The player at `i` gets nothing more, and everybody else gets the part of the one who has his
position among the others. -/
theorem getElem?_shareRest {R : Type} [Add R] [Mul R] (chance : R) {i : Nat} {others sums : List R}
    (aligned : others.length + 1 = sums.length) (inside : i < sums.length) (k : Nat) :
    (shareRest chance i others sums)[k]? =
      if k = i then sums[k]?
      else sums[k]?.bind fun sum =>
        others[if k < i then k else k - 1]?.map fun other => sum + other * chance := by
  have found := List.getElem?_eq_getElem inside
  have length : (List.zipWith (fun sum other => sum + other * chance)
      (sums.eraseIdx i) others).length = others.length := by
    simp only [List.length_zipWith, List.length_eraseIdx, inside, if_true]
    omega
  simp only [shareRest, found, List.getElem?_insertIdx, length, List.getElem?_zipWith',
    List.getElem?_eraseIdx]
  by_cases same : k = i
  · subst same
    have fits : k ≤ others.length := by omega
    simp [fits, found]
  · by_cases earlier : k < i
    · simp only [same, earlier, if_true, if_false]
      cases sums[k]? <;> rfl
    · have later : ¬ k - 1 < i := by omega
      have back : k - 1 + 1 = k := by omega
      simp only [same, earlier, later, back, if_false]
      cases sums[k]? <;> rfl

@[simp] theorem length_expectations {R : Type} [Add R] [Mul R] [Div R] [NatCast R]
    (prizes holdings : List R) : (expectations prizes holdings).length = holdings.length := by
  induction prizes generalizing holdings with
  | nil => simp [expectations]
  | cons prize rest ih =>
    unfold expectations
    have step : ∀ (players : List (R × Nat)) (sums : List R),
        (∀ player ∈ players, player.2 < holdings.length) → sums.length = holdings.length →
        (players.foldl
          (fun sums (stack, i) =>
            let chance := stack / total holdings
            let sums := takePrize prize chance i sums
            if rest.isEmpty then sums
            else shareRest chance i (expectations rest (holdings.eraseIdx i)) sums)
          sums).length = holdings.length := by
      intro players
      induction players with
      | nil => exact fun _ _ same => same
      | cons player players ih' =>
        intro sums inside same
        refine ih' _ (fun p mem => inside p (List.mem_cons_of_mem _ mem)) ?_
        have here := inside player List.mem_cons_self
        dsimp only
        split
        · simpa using same
        · rw [length_shareRest]
          · simpa using same
          · simp only [ih, List.length_eraseIdx, length_takePrize, here, if_true]
            omega
    exact step _ _ (fun player mem => by have := List.snd_lt_of_mem_zipIdx mem; simpa using this)
      (length_zeros _)

/-- A whole number as the nearest double. -/
instance nearestDouble : NatCast Float := ⟨Float.ofNat⟩

def expected (holdings prizes : List Nat) : Except Refusal (List Float) :=
  (check holdings prizes maxPlayers).map fun _ => divide holdings prizes

/-- Whole payouts that make up the prizes, for at most `limit` players. The sum of the prizes is the
exact one and has to fit into 64 bits, `tally prizes ≤ cap`, for the payouts to mean anything. -/
def payouts (holdings prizes : List Nat) (limit : Nat) : Except Refusal (List Nat) :=
  (check holdings prizes limit).map fun _ =>
    largestRemainder (divide holdings prizes : List Float) (tally prizes)

end CardRoom.Icm
