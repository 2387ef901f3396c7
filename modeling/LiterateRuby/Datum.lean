import LiterateRuby.Entries
import LiterateRuby.Number.Decimal
import LiterateRuby.Text.Quoted
import LiterateRuby.Timestamp

/-! # Decoded data

Front matter decodes to scalars, times, bytes and collections. `Datum.text` is the plain text of a
value, used where a name or a message needs one; inside collections each value shows as
`Datum.display`, with strings quoted.
-/

namespace LiterateRuby

/-- A value decoded from front matter. -/
inductive Datum where
  | null
  | bool (value : Bool)
  | int (value : Int)
  | float (value : Number.Binary64)
  | str (value : String)
  | date (value : Date)
  | time (value : Timestamp)
  | bytes (value : List UInt8)
  | list (items : List Datum)
  | tuple (items : List Datum)
  | set (items : List Datum)
  | map (entries : List (Datum × Datum))
  deriving Inhabited

namespace Datum

/-- The name of a value's type in messages. -/
def typeName : Datum → String
  | .null => "NoneType"
  | .bool _ => "bool"
  | .int _ => "int"
  | .float _ => "float"
  | .str _ => "str"
  | .date _ => "date"
  | .time _ => "datetime"
  | .bytes _ => "bytes"
  | .list _ => "list"
  | .tuple _ => "tuple"
  | .set _ => "set"
  | .map _ => "dict"

def boolText (value : Bool) : String := if value then "True" else "False"

/-- Items between an opening and a closing text, with commas between them. -/
def enclosed (opening closing : String) (items : List String) : String :=
  opening ++ ", ".intercalate items ++ closing

mutual

/-- How a value shows inside a collection. -/
def display : Datum → String
  | .null => "None"
  | .bool value => boolText value
  | .int value => Number.intText value
  | .float value => value.text
  | .str value => Text.quoted value
  | .date value => value.display
  | .time value => value.display
  | .bytes value => Text.quotedBytes value
  | .list items => enclosed "[" "]" (displayAll items)
  | .tuple items =>
    match displayAll items with
    | [single] => enclosed "(" ",)" [single]
    | shown => enclosed "(" ")" shown
  | .set items =>
    match displayAll items with
    | [] => "set()"
    | shown => enclosed "\x7b" "\x7d" shown
  | .map entries => enclosed "\x7b" "\x7d" (displayEntries entries)

def displayAll : List Datum → List String
  | [] => []
  | item :: rest => display item :: displayAll rest

def displayEntries : List (Datum × Datum) → List String
  | [] => []
  | (key, value) :: rest => (display key ++ ": " ++ display value) :: displayEntries rest

end

def text : Datum → String
  | .str value => value
  | .date value => value.text
  | .time value => value.text
  | other => display other

mutual

/-- The number of digits of the first integer in a value that has too many of them. -/
def overlong? : Datum → Option Nat
  | .int value => Number.overlong? value
  | .list items | .tuple items | .set items => overlongAll? items
  | .map entries => overlongEntries? entries
  | _ => none

/-- The number of digits of the first integer in a collection that has too many of them. -/
def overlongAll? : List Datum → Option Nat
  | [] => none
  | item :: rest => (overlong? item).or (overlongAll? rest)

/-- The number of digits of the first integer in a mapping that has too many of them. -/
def overlongEntries? : List (Datum × Datum) → Option Nat
  | [] => none
  | (key, value) :: rest => ((overlong? key).or (overlong? value)).or (overlongEntries? rest)

end

/-- Values whose integers can all be written. -/
def checkWords (values : List Datum) : Except Number.TooManyDigits PUnit :=
  match overlongAll? values with
  | some digits => .error ⟨digits⟩
  | none => .ok ⟨⟩

/-- The number that a truth value, an integer or a float stands for when keys are compared. -/
def asInt? : Datum → Option Int
  | .bool value => some (if value then 1 else 0)
  | .int value => some value
  | _ => none

/-- Whether two scalar keys name the same entry: numbers and truth values are compared by value. -/
def sameKey (left right : Datum) : Bool :=
  match left.asInt?, right.asInt? with
  | some a, some b => a == b
  | some a, none => match right with
    | .float x => x.equalsInt a
    | _ => false
  | none, some b => match left with
    | .float x => x.equalsInt b
    | _ => false
  | none, none =>
    match left, right with
    | .null, .null => true
    | .float x, .float y => x == y || x.numericEq y
    | .str a, .str b => a == b
    | .date a, .date b => a == b
    | .time a, .time b => a == b
    | .bytes a, .bytes b => a == b
    | _, _ => false

/-- Whether a value counts as given: empty text, empty collections, zero, false and null do not. -/
def isGiven : Datum → Bool
  | .null => false
  | .bool value => value
  | .int value => value != 0
  | .float value => !value.isZero
  | .str value => !value.isEmpty
  | .date _ => true
  | .time _ => true
  | .bytes value => !value.isEmpty
  | .list items => !items.isEmpty
  | .tuple items => !items.isEmpty
  | .set items => !items.isEmpty
  | .map entries => !entries.isEmpty

end Datum

/-- Front matter as read: named values in the order of their keys. -/
abbrev Metadata := Entries String Datum

end LiterateRuby
