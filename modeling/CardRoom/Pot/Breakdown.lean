import CardRoom.Chips

/-! # Main pot and side pots

The amounts that the players put in cut a pot into layers, one for each step up from one
amount to the next that at least two players reach. The lowest layer belongs to the main pot and
the others are side pots, from the shortest all-in up. The main pot is what the side pots leave
of the total, so it also holds what a single player put in beyond everyone else.
-/

namespace CardRoom

/-- A pot as its main pot and its side pots, the lowest side pot first. -/
structure Breakdown where
  main : Chips
  sidePots : List Chips
  deriving DecidableEq

namespace Breakdown

def single (total : Chips) : Breakdown := ⟨total, []⟩

def sideTotal (b : Breakdown) : Chips := Chips.sum b.sidePots

def total (b : Breakdown) : Chips := b.main + b.sideTotal

def isSplit (b : Breakdown) : Bool := !b.sidePots.isEmpty

/-- The layers above the level `below` for ascending amounts. A step that only the last amount
takes is no layer. -/
def layerAmounts (below : Chips) : List Chips → List Chips
  | [] => []
  | c :: rest =>
    if c - below ≠ 0 ∧ rest ≠ [] then
      (c - below).times (rest.length + 1) :: layerAmounts c rest
    else layerAmounts below rest

/-- The breakdown of `total` by what each player put in. -/
def ofCommitments (committed : List Chips) (total : Chips) : Breakdown :=
  let amounts := (committed.filter (· ≠ 0)).mergeSort fun a b => decide (a ≤ b)
  let sidePots := (layerAmounts 0 amounts).drop 1
  ⟨total - Chips.sum sidePots, sidePots⟩

end Breakdown

end CardRoom
