import LiterateRuby.RubyUnit
import LiterateRuby.Text.Word

/-! # Declarations under a unit heading

A line that is neither a heading nor part of a method declares attributes, a constant or a class
variable, or says nothing. The value of a constant or class variable is a number, a truth value,
nil, or an expression kept as written.
-/

namespace LiterateRuby.Literate

open Number (TooManyDigits)

/-- The digits of a number after an optional minus sign. -/
def afterMinus : List Char → Bool × List Char
  | '-' :: rest => (true, rest)
  | rest => (false, rest)

def isDigits (cs : List Char) : Bool := !cs.isEmpty && cs.all Text.isDigit

def isInteger (cs : List Char) : Bool := isDigits (afterMinus cs).2

/-- Whether a text is a decimal number with digits on both sides of its point. -/
def isDecimal (cs : List Char) : Bool :=
  let magnitude := (afterMinus cs).2
  match magnitude.dropWhile Text.isDigit with
  | '.' :: fraction => isDigits (magnitude.takeWhile Text.isDigit) && isDigits fraction
  | _ => false

def readInteger (cs : List Char) : Except TooManyDigits Int :=
  let (negative, digits) := afterMinus cs
  if Number.maxIntDigits < digits.length then .error ⟨digits.length⟩
  else
    let value : Int := Text.digitsValue digits
    .ok (if negative then -value else value)

def readValue (text : List Char) : Except TooManyDigits Constant :=
  let value := Text.trim text
  if isInteger value then Constant.int <$> readInteger value
  else if isDecimal value then .ok (.float ((Number.Binary64.ofText? value).getD .nan))
  else
    match String.ofList value with
    | "true" => .ok (.bool true)
    | "false" => .ok (.bool false)
    | "nil" => .ok .nil
    | "" => .ok .nil
    | source => .ok (.raw source)

/-- What a line under a unit heading says. -/
inductive Declaration where
  | attributes (accessor : Accessor) (names : List String)
  | constant (name : String) (value : List Char)
  | classVariable (name : String) (value : List Char)
  | nothing
  deriving DecidableEq, Repr

/-- The names in a declaration of attributes, which may be written as symbols. -/
def attributeNames (text : List Char) : List String :=
  (((Text.splitOn ',' text).map Text.trim).filter (!·.isEmpty)).map fun name =>
    String.ofList (Text.dropStart [':'] name)

def attributes? (line : List Char) : Option Declaration :=
  Accessor.all.findSome? fun accessor =>
    match Text.after? accessor.keyword.toList line with
    | some (gap :: rest) =>
      if Text.isBlank gap && !(Text.trimStart rest).isEmpty then
        some (.attributes accessor (attributeNames (Text.trimStart rest)))
      else none
    | _ => none

/-- The text after an equals sign that is not part of a longer operator, with blanks before the
sign. -/
def assigned? (line : List Char) : Option (List Char) :=
  match Text.trimStart line with
  | '=' :: rest =>
    match rest with
    | '=' :: _ | '~' :: _ | '>' :: _ => none
    | value => some value
  | _ => none

def isCapital (c : Char) : Bool := 'A' ≤ c && c ≤ 'Z'

/-- Whether a character may stand in the name of a constant. -/
def isConstantChar (c : Char) : Bool := isCapital c || ('0' ≤ c && c ≤ '9') || c == '_'

def constant? (line : List Char) : Option Declaration :=
  let name := line.takeWhile isConstantChar
  if (name.head?.map isCapital).getD false then
    (assigned? (line.dropWhile isConstantChar)).map (.constant (String.ofList name))
  else none

/-- The assignment to a class variable that a line makes. -/
def classVariable? (line : List Char) : Option Declaration :=
  match Text.after? ['@', '@'] line with
  | some rest =>
    let name := rest.takeWhile Text.isWord
    if name.isEmpty then none
    else
      (assigned? (rest.dropWhile Text.isWord)).map
        (.classVariable (String.ofList ('@' :: '@' :: name)))
  | none => none

/-- What a trimmed line says. -/
def readDeclaration (line : List Char) : Declaration :=
  (((attributes? line).orElse fun _ => constant? line).orElse fun _ => classVariable? line).getD
    .nothing

end LiterateRuby.Literate
