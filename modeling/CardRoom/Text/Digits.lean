/-! # Numbers in decimal digits -/

namespace CardRoom.Text

/-- The number that some decimal digits spell, leading zeros included. -/
def natOfDigits? (cs : List Char) : Option Nat :=
  if cs.isEmpty || !cs.all Char.isDigit then none
  else some (cs.foldl (fun n d => n * 10 + (d.toNat - '0'.toNat)) 0)

end CardRoom.Text
