import CardRoom.Json.Token

/-! # JSON values

A value keeps numbers as they were written and the members of an object in their order,
repeated keys included: what a number or a repeated key means is for the reader of a record to
say. `ofTokens?` keeps the open brackets on a stack of its own, so nesting has no limit.
-/

namespace CardRoom.Json

inductive Value where
  | null
  | bool (b : Bool)
  | number (written : List Char)
  | text (q : Quote)
  | array (items : List Value)
  | object (members : List (Quote × Value))

instance : Inhabited Value := ⟨.null⟩

namespace Value

def ofNat (n : Nat) : Value := .number (Nat.toDigits 10 n)

def ofString (s : String) : Value := .text (.ofString s)

def record (members : List (String × Value)) : Value :=
  .object (members.map fun (key, v) => (.ofString key, v))

/-! ## Reading -/

/-- An open bracket with what stands inside it so far, the latest first. -/
inductive Frame where
  | array (items : List Value)
  /-- An object whose next value belongs to `key`. -/
  | object (members : List (Quote × Value)) (key : Quote)

inductive Expected where
  /-- A value, or right after an opening bracket also the closing one. -/
  | value (orEnd : Bool)
  /-- A key, or right after an opening brace also the closing one. -/
  | key (members : List (Quote × Value)) (orEnd : Bool)
  | colon (members : List (Quote × Value)) (key : Quote)
  /-- A separator or a closing bracket, after the value `v`. -/
  | after (v : Value)

/-- One token further, unless it cannot stand here. -/
def step : Expected × List Frame → Token → Option (Expected × List Frame)
  | (.value _, stack), .null => some (.after .null, stack)
  | (.value _, stack), .bool b => some (.after (.bool b), stack)
  | (.value _, stack), .numeral digits => some (.after (.number digits), stack)
  | (.value _, stack), .quote q => some (.after (.text q), stack)
  | (.value _, stack), .beginArray => some (.value true, .array [] :: stack)
  | (.value _, stack), .beginObject => some (.key [] true, stack)
  | (.value true, .array _ :: stack), .endArray => some (.after (.array []), stack)
  | (.key members _, stack), .quote q => some (.colon members q, stack)
  | (.key _ true, stack), .endObject => some (.after (.object []), stack)
  | (.colon members key, stack), .colon => some (.value false, .object members key :: stack)
  | (.after v, .array items :: stack), .comma => some (.value false, .array (v :: items) :: stack)
  | (.after v, .array items :: stack), .endArray =>
    some (.after (.array (v :: items).reverse), stack)
  | (.after v, .object members key :: stack), .comma =>
    some (.key ((key, v) :: members) false, stack)
  | (.after v, .object members key :: stack), .endObject =>
    some (.after (.object ((key, v) :: members).reverse), stack)
  | _, _ => none

/-- The one value that the tokens make up. -/
def ofTokens? (tokens : List Token) : Option Value :=
  match tokens.foldlM step (.value false, []) with
  | some (.after v, []) => some v
  | _ => none

def parse? (text : String) : Option Value :=
  (Token.listOfChars? text.toList).bind ofTokens?

/-! ## Writing -/

private def hex4 (n : Nat) : List Char :=
  let digits := Nat.toDigits 16 n
  List.replicate (4 - digits.length) '0' ++ digits

private def renderChar (c : Char) : List Char :=
  match c with
  | '"' => ['\\', '"']
  | '\\' => ['\\', '\\']
  | c => if c.toNat < 0x20 then '\\' :: 'u' :: hex4 c.toNat else [c]

private def renderPiece : Piece → List Char
  | .raw c | .short c => renderChar c
  | .unit n => '\\' :: 'u' :: hex4 n

private def renderQuote (q : Quote) : String :=
  String.ofList ('"' :: q.flatMap renderPiece ++ ['"'])

mutual

/-- The value on one line without white space. -/
def render : Value → String
  | .null => "null"
  | .bool b => if b then "true" else "false"
  | .number written => String.ofList written
  | .text q => renderQuote q
  | .array items => "[" ++ ",".intercalate (renderItems items) ++ "]"
  | .object members => "\x7b" ++ ",".intercalate (renderMembers members) ++ "\x7d"

def renderItems : List Value → List String
  | [] => []
  | v :: rest => render v :: renderItems rest

def renderMembers : List (Quote × Value) → List String
  | [] => []
  | (key, v) :: rest => (renderQuote key ++ ":" ++ render v) :: renderMembers rest

end

end Value

end CardRoom.Json
