import CardRoom.Json.Value
import CardRoom.Text.Digits

/-! # Formats of records

A format pairs a way to read a type from a JSON value with a way to write it. Integers are
read only as plain digits within their width. A record is an object with its fields by name, or
an array of all its fields in order; fields of other names are passed over, and a field that is
given twice makes the record unreadable.
-/

namespace CardRoom.Json

structure Format (α : Type) where
  read : Value → Option α
  write : α → Value

/-- What a record holds for one field: nothing, or a value. -/
abbrev Field := Option Value

namespace Format

/-- The number that decimal digits spell, when it is at most `limit`. A zero that leads stands
alone. -/
def digitsUpTo (limit : Nat) (digits : List Char) : Option Nat :=
  if digits.length > 1 ∧ digits.head? = some '0' then none
  else (Text.natOfDigits? digits).filter (· ≤ limit)

/-- An integer from 0 to `limit`. -/
def natUpTo (limit : Nat) : Format Nat where
  read
    | .number written => digitsUpTo limit written
    | _ => none
  write := .ofNat

def word64 : Format Nat := natUpTo (UInt64.size - 1)

def word32 : Format Nat := natUpTo (UInt32.size - 1)

def word8 : Format Nat := natUpTo (UInt8.size - 1)

def bool : Format Bool where
  read
    | .bool b => some b
    | _ => none
  write := .bool

def string : Format String where
  read
    | .text q => q.text?
    | _ => none
  write := .ofString

def list {α : Type} (f : Format α) : Format (List α) where
  read
    | .array items => items.mapM f.read
    | _ => none
  write xs := .array (xs.map f.write)

/-- A value or `null`, which stands for nothing. -/
def option {α : Type} (f : Format α) : Format (Option α) where
  read
    | .null => some none
    | v => (f.read v).map some
  write
    | none => .null
    | some a => f.write a

def pair {α β : Type} (f : Format α) (g : Format β) : Format (α × β) where
  read
    | .array [a, b] => do return (← f.read a, ← g.read b)
    | _ => none
  write p := .array [f.write p.1, g.write p.2]

/-- The same format for a type that holds the same data. `make` may refuse. -/
def via {α β : Type} (f : Format α) (make : α → Option β) (unmake : β → α) : Format β where
  read v := (f.read v).bind make
  write b := f.write (unmake b)

/-! ## Records -/

/-- The members of an object, or `none` when a key stands for no text. -/
private def named? (members : List (Quote × Value)) : Option (List (String × Value)) :=
  members.mapM fun (key, v) => key.text?.map (·, v)

/-- What an object holds for a field, or `none` when it is given twice. -/
private def field? (members : List (String × Value)) (name : String) : Option Field :=
  match members.filter (·.1 == name) with
  | [] => some none
  | [(_, v)] => some (some v)
  | _ => none

/-- What a value holds for the fields of a record. An array gives them in order and gives no more
than there are; it gives all of them unless `mayStop`. -/
def fields? (names : List String) (mayStop : Bool) : Value → Option (List Field)
  | .object members => (named? members).bind fun members => names.mapM (field? members)
  | .array items =>
    if items.length = names.length ∨ mayStop ∧ items.length < names.length then
      some (names.mapIdx fun i _ => items[i]?)
    else none
  | _ => none

/-- A record with the given field names. `write` and `read` list its fields in that order. -/
def record {α : Type} (names : List String) (write : α → List Value)
    (read : List Field → Option α) (mayStop : Bool := false) : Format α where
  read v := (fields? names mayStop v).bind read
  write a := .record (names.zip (write a))

/-- A field that has to be there. -/
def required {α : Type} (f : Format α) (field : Field) : Option α := field.bind f.read

/-- A field that may be absent or `null`. -/
def optional {α : Type} (f : Format α) : Field → Option (Option α)
  | none => some none
  | some v => f.option.read v

/-- A field that has a default. -/
def orDefault {α : Type} (f : Format α) (default : α) : Field → Option α
  | none => some default
  | some v => f.read v

end Format

end CardRoom.Json
