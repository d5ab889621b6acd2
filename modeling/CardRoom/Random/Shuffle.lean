/-! # Shuffling

A source of randomness reorders lists and moves on to its next state. A list of swaps is such a
source too: it makes the same swaps every time and so deals the same cards.
-/

namespace CardRoom

class Shuffler (σ : Type) where
  shuffle {α : Type} : σ → List α → List α × σ

/-- Pairs of places to swap, in order. -/
structure Swaps where
  pairs : List (Nat × Nat)
  deriving DecidableEq, Repr

/-- A pair with a place beyond the list is passed over. -/
def Swaps.apply {α : Type} (s : Swaps) (xs : List α) : List α :=
  (s.pairs.foldl (fun a (i, j) => a.swapIfInBounds i j) xs.toArray).toList

instance : Shuffler Swaps := ⟨fun s xs => (s.apply xs, s)⟩

end CardRoom
