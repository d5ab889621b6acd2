import Std.Data.TreeMap
import CardRoom.Chips
import CardRoom.Identity

/-! # Layers of a pot

Contributions by player fall into layers, one for each distinct amount from the lowest up. A
layer lists the players who reached its amount and what each of them put into it. Players who
have folded keep their chips in the layers; who may win a layer is decided at the showdown.
-/

namespace CardRoom

/-- A part of the pot that only some players take part in. -/
structure SidePot where
  amount : Chips
  /-- Who reached the level of this part, in the order of seating. -/
  players : List PlayerId
  /-- What each of them put into this part. -/
  contributions : Std.TreeMap PlayerId Chips

/-- What players put into the pot over a whole hand. -/
abbrev Contributions := List (PlayerId × Chips)

namespace SidePot

/-- The layer that reaches from the level `below` up to `level`. -/
def between (contributions : Contributions) (below level : Chips) : SidePot :=
  let players := (contributions.filter fun (_, c) => decide (level ≤ c)).map Prod.fst
  { amount := (level - below).times players.length
    players
    contributions := players.foldl (fun map id => map.insert id (level - below)) ∅ }

/-- The layers above the level `below`, for ascending levels that may repeat. -/
def above (contributions : Contributions) (below : Chips) : List Chips → List SidePot
  | [] => []
  | level :: rest =>
    if level = below then above contributions below rest
    else between contributions below level :: above contributions level rest

def layers (contributions : Contributions) : List SidePot :=
  let amounts := (contributions.map Prod.snd).filter (· ≠ 0)
  above contributions 0 (amounts.mergeSort fun a b => decide (a ≤ b))

end SidePot

end CardRoom
