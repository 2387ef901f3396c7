import LiterateRuby.Text.Line

/-! # Types of plain scalars

A plain scalar carries no type of its own; its spelling decides. `Tag.ofPlain` tries the spellings
of truth values, floating-point numbers, integers, the merge key, null, times and the default key,
in this order, and takes text when none fits.
-/

namespace LiterateRuby.Yaml

/-- The types that data can have, and any other tag by its name. -/
inductive Tag where
  | null
  | bool
  | int
  | float
  | str
  | timestamp
  | merge
  | value
  | binary
  | seq
  | map
  | set
  | omap
  | pairs
  | other (name : String)
  deriving DecidableEq, Repr

namespace Tag

def standardStart : String := "tag:yaml.org,2002:"

/-- The standard tags by the ends of their names. -/
def standard : List (String × Tag) := [
  ("null", .null), ("bool", .bool), ("int", .int), ("float", .float), ("str", .str),
  ("timestamp", .timestamp), ("merge", .merge), ("value", .value), ("binary", .binary),
  ("seq", .seq), ("map", .map), ("set", .set), ("omap", .omap), ("pairs", .pairs)]

def ofName (name : String) : Tag :=
  match Text.after? standardStart.toList name.toList with
  | some rest => (standard.lookup (String.ofList rest)).getD (.other name)
  | none => .other name

def isDigit (c : Char) : Bool := '0' ≤ c && c ≤ '9'

def isDigitOr_ (c : Char) : Bool := isDigit c || c == '_'

def afterSign : List Char → List Char
  | '+' :: rest => rest
  | '-' :: rest => rest
  | rest => rest

def boolWords : List String :=
  ["yes", "Yes", "YES", "no", "No", "NO", "true", "True", "TRUE", "false", "False", "FALSE",
    "on", "On", "ON", "off", "Off", "OFF"]

def nullWords : List String := ["~", "null", "Null", "NULL", ""]

/-- Groups of one or two base-sixty digits, each after a colon, and what follows them; the empty
list of groups does not count. -/
def afterSexagesimal? : List Char → Option (List Char)
  | ':' :: a :: b :: rest =>
    if '0' ≤ a && a ≤ '5' && isDigit b then some ((afterSexagesimal? rest).getD rest)
    else if isDigit a then some ((afterSexagesimal? (b :: rest)).getD (b :: rest))
    else none
  | [':', a] => if isDigit a then some [] else none
  | _ => none

/-- A signed exponent that ends the text, or nothing. -/
def isExponentEnd : List Char → Bool
  | [] => true
  | e :: sign :: first :: rest =>
    (e == 'e' || e == 'E') && (sign == '+' || sign == '-') && (first :: rest).all isDigit
  | _ => false

/-- Whether a spelling is that of a floating-point number. -/
def isFloat (cs : List Char) : Bool :=
  let unsigned := afterSign cs
  let whole := unsigned.takeWhile isDigitOr_
  let afterWhole := unsigned.dropWhile isDigitOr_
  let leadsWithDigit := (whole.head?.map isDigit).getD false
  let pointed := match afterWhole with
    | '.' :: rest => leadsWithDigit && isExponentEnd (rest.dropWhile isDigitOr_)
    | _ => false
  let fraction := match cs with
    | '.' :: first :: rest => isDigit first && isExponentEnd (rest.dropWhile isDigitOr_)
    | _ => false
  let sexagesimal := leadsWithDigit && match afterSexagesimal? afterWhole with
    | some ('.' :: rest) => rest.all isDigitOr_
    | _ => false
  let infinite := [".inf", ".Inf", ".INF"].contains (String.ofList unsigned)
  let undefined := [".nan", ".NaN", ".NAN"].contains (String.ofList cs)
  pointed || fraction || sexagesimal || infinite || undefined

def isHex (c : Char) : Bool := isDigit c || ('a' ≤ c && c ≤ 'f') || ('A' ≤ c && c ≤ 'F')

/-- Whether a spelling is that of an integer in base two, eight, ten, sixteen or sixty. -/
def isInt (cs : List Char) : Bool :=
  match afterSign cs with
  | ['0'] => true
  | '0' :: 'b' :: first :: rest => (first :: rest).all fun c => c == '0' || c == '1' || c == '_'
  | '0' :: 'x' :: first :: rest => (first :: rest).all fun c => isHex c || c == '_'
  | '0' :: rest => rest.all fun c => ('0' ≤ c && c ≤ '7') || c == '_'
  | first :: rest =>
    isDigit first &&
      match rest.dropWhile isDigitOr_ with
      | [] => true
      | more => afterSexagesimal? more == some []
  | [] => false

/-- Digits of exactly a given count at the start, and the rest. -/
def fixedDigits? (count : Nat) (cs : List Char) : Option (List Char × List Char) :=
  let digits := cs.take count
  if digits.length = count && digits.all isDigit then some (digits, cs.drop count) else none

def oneOrTwoDigits? (cs : List Char) : Option (List Char × List Char) :=
  (fixedDigits? 2 cs).orElse fun _ => fixedDigits? 1 cs

def skip? (c : Char) : List Char → Option (List Char)
  | first :: rest => if first = c then some rest else none
  | [] => none

/-- The texts of the parts of a time. -/
structure TimeParts where
  year : List Char
  month : List Char
  day : List Char
  /-- Hour, minute, second and the digits after the point. -/
  clock : Option (List Char × List Char × List Char × List Char)
  /-- Sign, hours and minutes; universal time has no sign. -/
  zone : Option (Option Char × List Char × List Char)

def isGap (c : Char) : Bool := c == ' ' || c == '\t'

/-- The zone at the end of a time, if the text ends with it. -/
def zoneParts? (cs : List Char) : Option (Option (Option Char × List Char × List Char)) :=
  match cs.dropWhile isGap with
  | [] => if cs.isEmpty then some none else none
  | ['Z'] => some (some (none, [], []))
  | sign :: rest =>
    if sign = '+' ∨ sign = '-' then do
      let (hours, rest) ← oneOrTwoDigits? rest
      match rest with
      | [] => some (some (some sign, hours, []))
      | _ => do
        let rest ← skip? ':' rest
        let (minutes, rest) ← fixedDigits? 2 rest
        if rest.isEmpty then some (some (some sign, hours, minutes)) else none
    else none

/-- The rest after the mark between date and clock. -/
def afterDate? : List Char → Option (List Char)
  | 'T' :: rest => some rest
  | 't' :: rest => some rest
  | c :: rest => if isGap c then some (rest.dropWhile isGap) else none
  | [] => none

def clockParts? (cs : List Char) : Option TimeParts := do
  let (year, cs) ← fixedDigits? 4 cs
  let cs ← skip? '-' cs
  let (month, cs) ← oneOrTwoDigits? cs
  let cs ← skip? '-' cs
  let (day, cs) ← oneOrTwoDigits? cs
  let cs ← afterDate? cs
  let (hour, cs) ← oneOrTwoDigits? cs
  let cs ← skip? ':' cs
  let (minute, cs) ← fixedDigits? 2 cs
  let cs ← skip? ':' cs
  let (second, cs) ← fixedDigits? 2 cs
  let (fraction, cs) := match cs with
    | '.' :: rest => (rest.takeWhile isDigit, rest.dropWhile isDigit)
    | rest => ([], rest)
  let zone ← zoneParts? cs
  return ⟨year, month, day, some (hour, minute, second, fraction), zone⟩

def dateParts? (cs : List Char) : Option TimeParts := do
  let (year, cs) ← fixedDigits? 4 cs
  let cs ← skip? '-' cs
  let (month, cs) ← fixedDigits? 2 cs
  let cs ← skip? '-' cs
  let (day, cs) ← fixedDigits? 2 cs
  if cs.isEmpty then some ⟨year, month, day, none, none⟩ else none

/-- The parts of a time, with or without a clock. -/
def timeParts? (cs : List Char) : Option TimeParts :=
  (dateParts? cs).orElse fun _ => clockParts? cs

/-- A spelling without the line feed that may end it; a lone line feed stays. -/
def spelling (text : String) : String :=
  match text.toList.reverse with
  | '\n' :: c :: rest => String.ofList (c :: rest).reverse
  | _ => text

/-- The type that a plain scalar's spelling gives it. -/
def ofPlain (text : String) : Tag :=
  let text := spelling text
  if boolWords.contains text then .bool
  else if isFloat text.toList then .float
  else if isInt text.toList then .int
  else if text = "<<" then .merge
  else if nullWords.contains text then .null
  else if (timeParts? text.toList).isSome then .timestamp
  else if text = "=" then .value
  else .str

end Tag

end LiterateRuby.Yaml
