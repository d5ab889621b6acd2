/-! # Doubles as whole numbers

A finite double is a whole number times a power of two. Reading it off the bits gives the
largest whole number below a double and the order of all doubles by their bits, both in terms
that a proof can look into.
-/

namespace CardRoom.Binary64

/-- The bit that is set in negative doubles. -/
def signBit : Nat := 1 <<< 63

/-- The leading one of a mantissa, which is not among the bits. -/
def leadingOne : Nat := 1 <<< 52

def isNegative (v : Float) : Bool := signBit ≤ v.toBits.toNat

def exponentBits (v : Float) : Nat := v.toBits.toNat >>> 52 % 0x800

/-- The bits after the leading one. -/
def fractionBits (v : Float) : Nat := v.toBits.toNat % leadingOne

def isFinite (v : Float) : Bool := exponentBits v < 0x7ff

/-- For a finite double of magnitude `m * 2 ^ q`, the number `m`. -/
def mantissa (v : Float) : Nat :=
  if exponentBits v = 0 then fractionBits v else leadingOne + fractionBits v

/-- For a finite double of magnitude `m * 2 ^ q`, the number `q`. -/
def exponent (v : Float) : Int := (max (exponentBits v) 1 : Nat) - 1075

def floor (v : Float) : Float :=
  let scale := 1 <<< (-exponent v).toNat
  if !isFinite v || 0 ≤ exponent v || mantissa v % scale == 0 then v
  else if isNegative v then -Float.ofNat (mantissa v / scale + 1)
  else Float.ofNat (mantissa v / scale)

/-- The place of a double in the order by bits, which puts -0 before 0 and NaN at the ends. -/
def orderKey (v : Float) : Nat :=
  if isNegative v then UInt64.size - 1 - v.toBits.toNat else signBit + v.toBits.toNat

end CardRoom.Binary64
