import LiterateRuby.Datum

/-! # Values of constants and class variables

A constant holds a literal, a symbol, or an expression kept as written. Front matter can also give
it decoded data that has no literal form (`data`); such a value is kept but cannot be rendered.
-/

namespace LiterateRuby

/-- The value of a constant or class variable. -/
inductive Constant where
  | nil
  | bool (value : Bool)
  | int (value : Int)
  | float (value : Number.Binary64)
  | str (value : String)
  | symbol (name : String)
  | raw (source : String)
  | data (value : Datum)
  deriving Inhabited

namespace Constant

/-- Why a constant cannot be made. -/
inductive Flaw where
  | emptySymbol
  | emptySource
  deriving DecidableEq, Repr

def Flaw.message : Flaw → String
  | .emptySymbol => "symbol name must not be empty"
  | .emptySource => "expression source must not be empty"

def ofSymbol (name : String) : Except Flaw Constant :=
  if name = "" then .error .emptySymbol else .ok (.symbol name)

def ofSource (source : String) : Except Flaw Constant :=
  if source = "" then .error .emptySource else .ok (.raw source)

/-- Escapes a text for double quotes so that nothing in it is interpolated. -/
def escape : List Char → List Char
  | [] => []
  | '#' :: '\x7b' :: rest => '\\' :: '#' :: '\x7b' :: escape rest
  | c :: rest => if c = '\\' ∨ c = '"' then '\\' :: c :: escape rest else c :: escape rest

def stringLiteral (value : String) : String :=
  String.ofList ('"' :: escape value.toList ++ ['"'])

/-- Why a value has no literal. -/
inductive NoLiteral where
  | unsupported (typeName : String)
  | number (fault : Number.TooManyDigits)
  deriving DecidableEq, Repr

def literal : Constant → Except NoLiteral String
  | .nil => .ok "nil"
  | .bool value => .ok (if value then "true" else "false")
  | .int value => (Number.writtenInt value).mapError .number
  | .float value => .ok value.text
  | .str value => .ok (stringLiteral value)
  | .symbol name => .ok (":" ++ name)
  | .raw source => .ok source
  | .data value => .error (.unsupported value.typeName)

end Constant

namespace Datum

/-- Whether a key can be written before a colon. -/
def isLabel (name : String) : Bool :=
  -- a line feed at the very end does not count
  let body := match name.toList.reverse with
    | '\n' :: rest => rest.reverse
    | _ => name.toList
  match body with
  | [] => false
  | first :: rest =>
    (first.isLower || first == '_') && rest.all fun c => c.isAlphanum || c == '_'

def escapePlain (cs : List Char) : List Char :=
  cs.flatMap fun c => if c = '\\' ∨ c = '"' then ['\\', c] else [c]

/-- A text as a double-quoted literal inside a collection. -/
def plainLiteral (value : String) : String :=
  String.ofList ('"' :: escapePlain value.toList ++ ['"'])

mutual

/-- The literal of a decoded value. Times and bytes become strings. -/
def literal : Datum → String
  | .null => "nil"
  | .bool value => if value then "true" else "false"
  | .int value => Number.intText value
  | .float value => value.text
  | .str value => plainLiteral value
  | .list items => enclosed "[" "]" (literals items)
  | .map entries =>
    match entryLiterals entries with
    | [] => "\x7b\x7d"
    | written => enclosed "\x7b " " \x7d" written
  | .date value => plainLiteral value.text
  | .time value => plainLiteral value.text
  | .bytes value => plainLiteral (Text.quotedBytes value)
  | .tuple items => plainLiteral (text (.tuple items))
  | .set items => plainLiteral (text (.set items))

def literals : List Datum → List String
  | [] => []
  | item :: rest => literal item :: literals rest

/-- The literals of the entries of a mapping; a label key is written before a colon. -/
def entryLiterals : List (Datum × Datum) → List String
  | [] => []
  | (key, value) :: rest =>
    let written := match key with
      | .str name => if isLabel name then name ++ ": " else plainLiteral name ++ " => "
      | other => literal other ++ " => "
    (written ++ literal value) :: entryLiterals rest

end

/-- The constant that a decoded value stands for: scalars keep their type, lists and mappings become
expressions, everything else becomes text. -/
def toConstant : Datum → Constant
  | .null => .nil
  | .bool value => .bool value
  | .int value => .int value
  | .float value => .float value
  | .str value => .str value
  | .list items => .raw (literal (.list items))
  | .map entries => .raw (literal (.map entries))
  | other => .str other.text

/-- The value whose text a constant takes, if it takes one; an integer stays an integer. -/
def worded? : Datum → Option Datum
  | .int _ => none
  | other => some other

end Datum

end LiterateRuby
