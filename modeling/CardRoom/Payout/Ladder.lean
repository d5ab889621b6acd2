import CardRoom.Chips
import CardRoom.Decimal.Shortest
import CardRoom.Payout.Remainder

/-! # Prize ladders

A ladder gives each place a share of a prize pool. Prizes are rounded down. When the shares
make up the whole pool, up to the error of adding decimal fractions, the chips that rounding
leaves are dealt one by one from the first place on.
-/

namespace CardRoom.Ladder

inductive Refusal where
  | empty
  | badShare (place : Nat) (share : Float)
  | overfull (sum : Float)

def Refusal.message : Refusal → String
  | .empty => "Payout ladder is empty"
  | .badShare place share => s!"Payout share at place {place} is invalid: {Decimal.text share}"
  | .overfull sum =>
    s!"Payout shares sum to {Decimal.text sum}, expected at most 1.0"

/-- How far a sum of shares may lie from one. -/
def tolerance : Float := 1e-9

def isInvalid (share : Float) : Bool := !Binary64.isFinite share || share < 0.0

def shareSum (shares : List Float) : Float := shares.foldl (· + ·) 0.0

def isFull (shares : List Float) : Bool := (shareSum shares - 1.0).abs ≤ tolerance

/-- The pool's share rounded down. -/
def portion (pool : Nat) (share : Float) : Nat := Fractional.whole (Float.ofNat pool * share)

/-- The portions of a full ladder are added up, and their sum has to fit into 64 bits. Nothing is
said about what a full ladder pays when it does not. -/
def SumFits (pool : Nat) (shares : List Float) : Prop :=
  isFull shares = true → tally (shares.map (portion pool)) ≤ cap

/-- The prizes when what the portions leave of the pool is dealt out from the first place on. The
sum of the portions is the exact one, which 64-bit sums reach only up to the cap. -/
def dealOut (pool : Nat) (portions : List Nat) : List Nat :=
  portions.mapIdx fun place n => n + topUp (pool - tally portions) portions.length place

def prizes (pool : Nat) (shares : List Float) : Except Refusal (List Nat) :=
  if shares.isEmpty then .error .empty
  else
    match shares.zipIdx.find? fun (share, _) => isInvalid share with
    | some (share, place) => .error (.badShare place share)
    | none =>
      if 1.0 + tolerance < shareSum shares then .error (.overfull (shareSum shares))
      else
        let portions := shares.map (portion pool)
        .ok (if isFull shares then dealOut pool portions else portions)

end CardRoom.Ladder
