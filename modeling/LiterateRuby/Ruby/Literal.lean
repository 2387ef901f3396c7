import LiterateRuby.Constant
import LiterateRuby.Ruby.Tree
import LiterateRuby.Text.Line

/-! # Values of right-hand sides

Plain strings, canonical numbers, truth values, nil and symbols are decoded; every other
expression is kept as written. The text of a heredoc stands after the line that opens it, so an
expression that opens one extends to the end of the last text that belongs to it.
-/

namespace LiterateRuby.Ruby

/-- Why a walk over a tree stops. -/
inductive TreeFault where
  /-- A tree lacks a part that its kind calls for. -/
  | missingPart
  | undecodable (fault : Text.Utf8.Fault)
  | unterminatedHeredoc (line : Nat)
  | tooManyDigits (digits : Nat)
  | value (flaw : Constant.Flaw)
  deriving DecidableEq, Repr

def TreeFault.message : TreeFault → String
  | .missingPart => "'NoneType' object has no attribute 'start_byte'"
  | .undecodable fault => fault.message
  | .unterminatedHeredoc line => "unterminated heredoc at line " ++ toString line
  | .tooManyDigits digits =>
    "Exceeds the limit (" ++ toString Number.maxIntDigits ++
      " digits) for integer string conversion: value has " ++ toString digits ++
      " digits; use sys.set_int_max_str_digits() to increase the limit"
  | .value flaw => flaw.message

def textOf (source : Source) (tree : Tree) : Except TreeFault String :=
  (source.text tree.start tree.stop).mapError .undecodable

/-- The text of a part that a tree must have. -/
def partText (source : Source) (part : Option Tree) : Except TreeFault String :=
  match part with
  | some tree => textOf source tree
  | none => .error .missingPart

/-- The content of a string literal without interpolation and escapes. -/
def plainString? (source : Source) (tree : Tree) : Except TreeFault (Option String) :=
  if tree.kind ≠ "string" then .ok none
  else if tree.namedChildren.any (·.kind != "string_content") then .ok none
  else do
    let content := String.join (← tree.namedChildren.mapM (textOf source))
    return if content.toList.contains '\\' then none else some content

/-- The name that a symbol or a plain string gives. -/
def symbolName? (source : Source) (tree : Tree) : Except TreeFault (Option String) := do
  match tree.kind with
  | "simple_symbol" =>
    let text ← textOf source tree
    return some (String.ofList (text.toList.drop 1))
  | "delimited_symbol" =>
    let parts := tree.namedChildren
    if parts.isEmpty || parts.any (·.kind != "string_content") then return none
    else return some (String.join (← parts.mapM (textOf source)))
  | "string" => plainString? source tree
  | _ => return none

/-- The texts of heredocs that start at or after the end of a tree, in source order. -/
def heredocBodies (root tree : Tree) : List Tree :=
  ((root.descendants "heredoc_body").filter (tree.stop ≤ ·.start)).mergeSort
    fun left right => left.start ≤ right.start

/-- The end of the last heredoc text that belongs to a tree, if the tree opens a heredoc. -/
def heredocEnd? (source : Source) (root tree : Tree) : Except TreeFault (Option Nat) :=
  match (tree.descendants "heredoc_beginning").length with
  | 0 => .ok none
  | openers + 1 =>
    match (heredocBodies root tree)[openers]? with
    | some body => .ok (some body.stop)
    | none => .error (.unterminatedHeredoc (source.row tree.start + 1))

/-- A minus sign is optional before the digits of a number. -/
def afterMinus : List Char → List Char
  | '-' :: rest => rest
  | rest => rest

/-- The integer that a text spells canonically. A final line feed does not spoil the form of an
integer, only its spelling. -/
def canonicalInt? (text : String) : Except TreeFault (Option Int) :=
  let digits := afterMinus text.toList
  let digits := if digits.getLast? = some '\n' then digits.dropLast else digits
  if digits.isEmpty || !digits.all Text.isDigit then .ok none
  else if Number.maxIntDigits < digits.length then .error (.tooManyDigits digits.length)
  else
    match Number.intOfText? text.toList with
    | some value => .ok (if Number.intText value = text then some value else none)
    | none => .ok none

/-- The floating-point number that a text spells canonically. -/
def canonicalFloat? (text : String) : Option Number.Binary64 :=
  let magnitude := afterMinus text.toList
  match magnitude.dropWhile Text.isDigit with
  | '.' :: fraction =>
    if fraction.isEmpty || !fraction.all Text.isDigit || (magnitude.takeWhile Text.isDigit).isEmpty then
      none
    else (Number.Binary64.ofText? text.toList).filter (·.text == text)
  | _ => none

/-- The opposite of a number, if its text is the given one with spaces taken out. -/
def negated? (text : String) (value : Constant) : Option Constant :=
  let spelled := String.ofList (text.toList.filter (· != ' '))
  match value with
  | .int value =>
    if Number.intText (-value) = spelled then some (.int (-value)) else none
  | .float value => if value.neg.text = spelled then some (.float value.neg) else none
  | _ => none

def keepSource (source : String) : Except TreeFault Constant :=
  (Constant.ofSource source).mapError .value

/-- The value of a right-hand side in a tree with the given root. -/
def decodeValue (source : Source) (root tree : Tree) : Except TreeFault Constant := do
  match ← heredocEnd? source root tree with
  | some stop =>
    let text ← (source.text tree.start stop).mapError .undecodable
    keepSource (String.ofList (Text.trimEnd text.toList))
  | none =>
    let text ← textOf source tree
    match tree.kind with
    | "string" =>
      match ← plainString? source tree with
      | some content => return .str content
      | none => keepSource text
    | "integer" =>
      match ← canonicalInt? text with
      | some value => return .int value
      | none => keepSource text
    | "float" =>
      match canonicalFloat? text with
      | some value => return .float value
      | none => keepSource text
    | "true" => return .bool true
    | "false" => return .bool false
    | "nil" => return .nil
    | "simple_symbol" =>
      (Constant.ofSymbol (String.ofList (text.toList.drop 1))).mapError .value
    | "unary" =>
      match _operand : tree.child? "operand" with
      | some operandTree =>
        if text.toList.head? = some '-' then
          let value ← decodeValue source root operandTree
          match negated? text value with
          | some value => return value
          | none => keepSource text
        else keepSource text
      | none => keepSource text
    | _ => keepSource text
  termination_by sizeOf tree
  decreasing_by exact Tree.sizeOf_child?_lt _operand

end LiterateRuby.Ruby
