import CardRoom.Text.Digits

/-! # Doubles of decimal numerals

A numeral has a whole part, and it may have a sign, digits after a point and a power of ten. It
is read as the double nearest to the number that it spells.
-/

namespace CardRoom.Decimal

/-- The whole number of digits with or without a sign, and zero for no digits. -/
def signed : List Char → Int
  | '-' :: digits => -((Text.natOfDigits? digits).getD 0 : Nat)
  | '+' :: digits => ((Text.natOfDigits? digits).getD 0 : Nat)
  | digits => ((Text.natOfDigits? digits).getD 0 : Nat)

/-- The double of a numeral without a sign. All digits are taken as one whole number, and the
power of ten makes up for those after the point. -/
def ofUnsigned (written : List Char) : Float :=
  let (digits, power) := written.span fun c => c != 'e' && c != 'E'
  let (whole, fraction) := digits.span (· != '.')
  let fraction := fraction.drop 1
  let power := signed (power.drop 1) - fraction.length
  Float.ofScientific ((Text.natOfDigits? (whole ++ fraction)).getD 0) (power < 0) power.natAbs

def ofNumeral : List Char → Float
  | '-' :: rest => -ofUnsigned rest
  | rest => ofUnsigned rest

end CardRoom.Decimal
