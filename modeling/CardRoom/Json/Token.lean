/-! # Tokens of a JSON text

A text is cut into brackets, separators, the three words, numerals and quotes. A quote keeps
its pieces as they were written, so that a reader can ask for the characters it stands for or
insist on a spelling without escapes. Half of a surrogate pair is a well-formed piece but
stands for no character.
-/

namespace CardRoom.Json

/-- One character of a quote as it was written. -/
inductive Piece where
  /-- The character itself. -/
  | raw (c : Char)
  /-- A backslash and one letter. -/
  | short (c : Char)
  /-- A 16-bit unit in four hexadecimal digits. -/
  | unit (n : Nat)
  deriving DecidableEq, Repr

abbrev Quote := List Piece

namespace Quote

def ofString (s : String) : Quote := s.toList.map .raw

/-- The characters that the pieces stand for. Two units that form a surrogate pair are one
character, and a unit of a pair without the other stands for none. -/
def chars? : Quote → Option (List Char)
  | [] => some []
  | .raw c :: rest => (chars? rest).map (c :: ·)
  | .short c :: rest => (chars? rest).map (c :: ·)
  | .unit n :: rest =>
    if n < 0xd800 ∨ 0xe000 ≤ n then (chars? rest).map (Char.ofNat n :: ·)
    else
      match rest with
      | .unit m :: rest =>
        if n < 0xdc00 ∧ 0xdc00 ≤ m ∧ m < 0xe000 then
          (chars? rest).map (Char.ofNat (0x10000 + (n - 0xd800) * 0x400 + (m - 0xdc00)) :: ·)
        else none
      | _ => none

def text? (q : Quote) : Option String := q.chars?.map String.ofList

/-- The characters of a quote without any escape. -/
def plain? (q : Quote) : Option (List Char) :=
  q.mapM fun
    | .raw c => some c
    | _ => none

end Quote

inductive Token where
  | beginArray
  | endArray
  | beginObject
  | endObject
  | comma
  | colon
  | null
  | bool (b : Bool)
  | numeral (digits : List Char)
  | quote (q : Quote)
  deriving DecidableEq, Repr

namespace Token

/-- The digits of an exponent, with or without a sign. -/
private def isExponent : List Char → Bool
  | [] => true
  | e :: rest =>
    (e == 'e' || e == 'E') &&
      let digits := match rest with
        | '+' :: digits => digits
        | '-' :: digits => digits
        | digits => digits
      !digits.isEmpty && digits.all Char.isDigit

private def isFraction : List Char → Bool
  | '.' :: d :: rest => d.isDigit && isExponent (rest.dropWhile Char.isDigit)
  | rest => isExponent rest

private def isUnsigned : List Char → Bool
  | '0' :: rest => isFraction rest
  | d :: rest => d.isDigit && isFraction (rest.dropWhile Char.isDigit)
  | [] => false

/-- The characters spell a number: no leading zeros, digits on both sides of a point and digits
after an exponent's sign. -/
def isNumeral : List Char → Bool
  | '-' :: rest => isUnsigned rest
  | cs => isUnsigned cs

/-- A character that a numeral may go on with. Nothing else that is well-formed starts with one
right after a numeral, so the longest run of them is the numeral. -/
def isNumeralChar (c : Char) : Bool :=
  c.isDigit || c == '+' || c == '-' || c == '.' || c == 'e' || c == 'E'

def isGap (c : Char) : Bool := c == ' ' || c == '\t' || c == '\n' || c == '\r'

def ofLetters? (letters : List Char) : Option Token :=
  if letters = ['n', 'u', 'l', 'l'] then some .null
  else if letters = ['t', 'r', 'u', 'e'] then some (.bool true)
  else if letters = ['f', 'a', 'l', 's', 'e'] then some (.bool false)
  else none

def ofNumeral? (digits : List Char) : Option Token :=
  if isNumeral digits then some (.numeral digits) else none

/-- What the letter after a backslash stands for. -/
def shortEscape? : Char → Option Char
  | '"' => some '"'
  | '\\' => some '\\'
  | '/' => some '/'
  | 'b' => some '\x08'
  | 'f' => some '\x0c'
  | 'n' => some '\n'
  | 'r' => some '\r'
  | 't' => some '\t'
  | _ => none

def hexValue? (c : Char) : Option Nat :=
  if c.isDigit then some (c.toNat - '0'.toNat)
  else if 'a' ≤ c ∧ c ≤ 'f' then some (c.toNat - 'a'.toNat + 10)
  else if 'A' ≤ c ∧ c ≤ 'F' then some (c.toNat - 'A'.toNat + 10)
  else none

/-- Where a reader stands between two characters. Lists of what it has read so far hold the
latest first. -/
inductive Place where
  | between
  | inWord (letters : List Char)
  | inNumeral (digits : List Char)
  | inQuote (pieces : List Piece)
  /-- After a backslash. -/
  | inEscape (pieces : List Piece)
  /-- Inside a unit: the digits so far as a number, and how many follow the next one. -/
  | inUnit (pieces : List Piece) (value left : Nat)

/-- A reader with the tokens that it has finished, the latest first. -/
abbrev Reader := Place × List Token

/-- The next character, when no token is open. -/
def start (done : List Token) (c : Char) : Option Reader :=
  if isGap c then some (.between, done)
  else if c == '-' || c.isDigit then some (.inNumeral [c], done)
  else if c.isLower then some (.inWord [c], done)
  else
    match c with
    | '"' => some (.inQuote [], done)
    | '[' => some (.between, .beginArray :: done)
    | ']' => some (.between, .endArray :: done)
    | '\x7b' => some (.between, .beginObject :: done)
    | '\x7d' => some (.between, .endObject :: done)
    | ',' => some (.between, .comma :: done)
    | ':' => some (.between, .colon :: done)
    | _ => none

/-- The next character of a text. A raw control character has no place in a quote. -/
def next : Reader → Char → Option Reader
  | (.between, done), c => start done c
  | (.inWord letters, done), c =>
    if c.isLower then some (.inWord (c :: letters), done)
    else (ofLetters? letters.reverse).bind fun t => start (t :: done) c
  | (.inNumeral digits, done), c =>
    if isNumeralChar c then some (.inNumeral (c :: digits), done)
    else (ofNumeral? digits.reverse).bind fun t => start (t :: done) c
  | (.inQuote pieces, done), c =>
    if c == '"' then some (.between, .quote pieces.reverse :: done)
    else if c == '\\' then some (.inEscape pieces, done)
    else if c.toNat < 0x20 then none
    else some (.inQuote (.raw c :: pieces), done)
  | (.inEscape pieces, done), c =>
    if c == 'u' then some (.inUnit pieces 0 3, done)
    else (shortEscape? c).map fun e => (.inQuote (.short e :: pieces), done)
  | (.inUnit pieces value left, done), c =>
    (hexValue? c).map fun digit =>
      match left with
      | 0 => (.inQuote (.unit (value * 16 + digit) :: pieces), done)
      | left + 1 => (.inUnit pieces (value * 16 + digit) left, done)

/-- The tokens at the end of a text, unless a quote is still open. -/
def finish : Reader → Option (List Token)
  | (.between, done) => some done.reverse
  | (.inWord letters, done) => (ofLetters? letters.reverse).map fun t => (t :: done).reverse
  | (.inNumeral digits, done) => (ofNumeral? digits.reverse).map fun t => (t :: done).reverse
  | _ => none

def listOfChars? (text : List Char) : Option (List Token) :=
  (text.foldlM next (.between, [])).bind finish

end Token

end CardRoom.Json
