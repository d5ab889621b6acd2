import CardRoom.Decimal.Binary64

/-! # Shortest decimal text of a double

A double is written with the fewest decimal digits that read back as the same double, and of
texts of that length the nearest one. The digits are found on grids of powers of ten, the
coarsest first: on each, only the two neighbours of the double can be the nearest, and a
neighbour reads back when it lies between the midpoints to the doubles next to it. The text is
always positional.
-/

namespace CardRoom.Decimal

/-- A positive double in quarters of its last binary place, with the midpoints around it. The
numbers are multiples of `1 / unit`. -/
structure Interval where
  low : Nat
  value : Nat
  high : Nat
  unit : Nat
  /-- The ends read back as the double itself. -/
  closed : Bool

/-- The numbers that read back as the positive double `v`. -/
def interval (v : Float) : Interval :=
  let m := Binary64.mantissa v
  let q := Binary64.exponent v - 2
  let scale := 1 <<< q.toNat
  -- Below a power of two the doubles lie twice as close.
  let gap := if m = Binary64.leadingOne ∧ 1 < Binary64.exponentBits v then 1 else 2
  ⟨(4 * m - gap) * scale, 4 * m * scale, (4 * m + 2) * scale, 1 <<< (-q).toNat, m % 2 = 0⟩

/-- The whole number `d` for which `d * 10 ^ e` reads back and is nearest, a tie going up. -/
def onGrid? (i : Interval) (e : Int) : Option Nat :=
  let fine := Nat.pow 10 (-e).toNat
  let step := i.unit * Nat.pow 10 e.toNat
  let inside (n : Nat) : Bool :=
    if i.closed then i.low * fine ≤ n && n ≤ i.high * fine
    else i.low * fine < n && n < i.high * fine
  let d := i.value * fine / step
  let rest := i.value * fine % step
  match inside (d * step), inside ((d + 1) * step) with
  | true, true => some (if 2 * rest < step then d else d + 1)
  | true, false => some d
  | false, true => some (d + 1)
  | false, false => none

/-- The grids that are tried: from the first power of ten above the double, through the
seventeen digits that always suffice. -/
def grids (i : Interval) : List Int :=
  let top : Int := (Nat.toDigits 10 i.value).length - (Nat.toDigits 10 i.unit).length + 1
  (List.range 20).map fun (k : Nat) => top - k

/-- The digits of a positive double and the power of ten that they are multiples of. -/
def shortest (v : Float) : Nat × Int :=
  let i := interval v
  ((grids i).findSome? fun e => (onGrid? i e).map (·, e)).getD (0, 0)

/-- The number `d * 10 ^ e` in digits, with a point only before further digits. -/
def positional (d : Nat) (e : Int) : String :=
  let digits := Nat.toDigits 10 d
  if 0 ≤ e then String.ofList (digits ++ List.replicate e.toNat '0')
  else
    let places := (-e).toNat
    let padded := List.replicate (places + 1 - digits.length) '0' ++ digits
    let whole := padded.length - places
    String.ofList (padded.take whole ++ '.' :: padded.drop whole)

def text (v : Float) : String :=
  let sign := if Binary64.isNegative v then "-" else ""
  if Binary64.isFinite v then
    if Binary64.mantissa v = 0 then sign ++ "0"
    else
      let (d, e) := shortest v
      sign ++ positional d e
  else if Binary64.fractionBits v = 0 then sign ++ "inf"
  else "NaN"

end CardRoom.Decimal
