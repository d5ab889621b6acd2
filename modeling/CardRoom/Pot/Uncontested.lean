import CardRoom.Chips
import CardRoom.Identity

/-! # Pots without an active player

A pot is contested when it lists an active player. An uncontested pot with a single player on
its list goes back to that player. Any other uncontested chips pass to the nearest contested pot
below, else to the nearest above. When no pot is contested at all, the first uncontested pot with
chips in it is opened to every active player and so becomes the heir of those after it.
-/

namespace CardRoom

/-- Chips and the players on the list for them. -/
structure Pot where
  amount : Chips
  eligible : List PlayerId
  deriving DecidableEq

namespace Pot

def isContested (active : List PlayerId) (p : Pot) : Bool := p.eligible.any (active.contains ·)

/-- What goes back to the only player on the list, who is not active. -/
def refund? (active : List PlayerId) (p : Pot) : Option (PlayerId × Chips) :=
  match p.eligible with
  | [id] => if p.amount ≠ 0 ∧ id ∉ active then some (id, p.amount) else none
  | _ => none

def refunds (active : List PlayerId) (pots : List Pot) : List (PlayerId × Chips) :=
  pots.filterMap (refund? active)

def withoutRefunds (active : List PlayerId) (pots : List Pot) : List Pot :=
  pots.map fun p => if (refund? active p).isSome then { p with amount := 0 } else p

/-- The contested pot that takes over from pot `k`: the nearest below, else the nearest above. -/
def heir? (active : List PlayerId) (pots : List Pot) (k : Nat) : Option Nat :=
  ((List.range k).reverse ++ List.range' (k + 1) (pots.length - (k + 1))).find? fun j =>
    pots[j]?.any (isContested active)

/-- Pot `k` passes on its chips if it is uncontested, or opens to all when nobody can take over. -/
def passOn (active : List PlayerId) (pots : List Pot) (k : Nat) : List Pot :=
  match pots[k]? with
  | none => pots
  | some p =>
    if p.amount = 0 ∨ p.isContested active then pots
    else
      match heir? active pots k with
      | some j =>
        (pots.modify j fun q => { q with amount := q.amount + p.amount }).modify k fun q =>
          { q with amount := 0 }
      | none => pots.modify k fun q => { q with eligible := active }

/-- The pots as they are played for, after refunds and after every pot in turn has passed on
what nobody active can win. -/
def resolve (active : List PlayerId) (pots : List Pot) : List Pot :=
  (List.range pots.length).foldl (passOn active) (withoutRefunds active pots)

@[simp] theorem length_passOn (active : List PlayerId) (pots : List Pot) (k : Nat) :
    (passOn active pots k).length = pots.length := by
  unfold passOn
  split
  · rfl
  · split
    · rfl
    · split <;> simp

end Pot

end CardRoom
