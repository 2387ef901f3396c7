import LiterateRuby.Ruby.Syntax.Rules

/-! # Literals

Numbers, symbols, characters and everything between delimiters: strings, regular expressions,
commands, and arrays of words. In interpolated literals the text between delimiters is cut into
content, escape sequences and interpolations.
-/

namespace LiterateRuby.Ruby.Syntax

/-- The number of characters of a run of digits, which single underscores may separate. -/
def digitRun (isDigit : Char → Bool) : List Char → Nat
  | [] => 0
  | c :: rest =>
    if isDigit c then digitRun isDigit rest + 1
    else if c = '_' && rest.head?.any isDigit then digitRun isDigit rest + 1
    else 0

/-- The number of characters of a run of digits that starts with one. -/
def numberRun (isDigit : Char → Bool) (cs : List Char) : Nat :=
  if cs.head?.any isDigit then digitRun isDigit cs else 0

def isHexDigit (c : Char) : Bool :=
  c.isDigit || ('a' ≤ c && c ≤ 'f') || ('A' ≤ c && c ≤ 'F')

def isOctalDigit (c : Char) : Bool := '0' ≤ c && c ≤ '7'

def isBinaryDigit (c : Char) : Bool := c == '0' || c == '1'

/-- The digits that a letter after a zero announces. -/
def radixDigits? (letter : Char) : Option (Char → Bool) :=
  match letter.toLower with
  | 'b' => some isBinaryDigit
  | 'o' => some isOctalDigit
  | 'd' => some Char.isDigit
  | 'x' => some isHexDigit
  | _ => none

/-- The kind and the number of characters of the number at the start of a text, without letters
after it. -/
def plainNumberAt (cs : List Char) : String × Nat :=
  let prefixed := match cs with
    | '0' :: letter :: rest =>
      match radixDigits? letter with
      | some isDigit => numberRun isDigit rest
      | none => 0
    | _ => 0
  if prefixed != 0 then ("integer", prefixed + 2)
  else
    let whole := numberRun Char.isDigit cs
    let fraction := match cs.drop whole with
      | '.' :: rest => let digits := numberRun Char.isDigit rest; if digits = 0 then 0 else digits + 1
      | _ => 0
    let exponent := match cs.drop (whole + fraction) with
      | e :: rest =>
        if e = 'e' || e = 'E' then
          let sign := if rest.head?.any fun c => c == '+' || c == '-' then 1 else 0
          let digits := numberRun Char.isDigit (rest.drop sign)
          if digits = 0 then 0 else digits + sign + 1
        else 0
      | [] => 0
    (if fraction + exponent = 0 then "integer" else "float", whole + fraction + exponent)

def number : Reading Tree := do
  let start ← offset
  let (kind, length) := plainNumberAt (← rest)
  guard (length != 0)
  let digits ← leaf kind length
  let tree ←
    match nameAt (← rest) with
    | "r" => advance 1; treeFrom "rational" start [digits]
    | "i" => advance 1; treeFrom "complex" start [digits]
    | "ri" => advance 2; treeFrom "complex" start [digits]
    | _ => pure digits
  guard !((← rest).head?.any isNameChar)
  return tree

/-- The characters that a text between delimiters ends and nests with. -/
structure Delimiter where
  opening : Char
  closing : Char
  interpolated : Bool
  /-- Whether blanks separate words. -/
  words : Bool

/-- The number of characters of an escape sequence after its backslash. -/
def escapeLength? (cs : List Char) : Option Nat :=
  match cs with
  | [] => none
  | 'x' :: rest =>
    let digits := ((rest.take 2).takeWhile isHexDigit).length
    if digits = 0 then none else some (digits + 1)
  | 'u' :: '\x7b' :: rest =>
    let digits := (rest.takeWhile fun c => isHexDigit c || c == ' ').length
    if digits != 0 && (rest.drop digits).head? = some '\x7d' then some (digits + 3) else none
  | 'u' :: rest => if ((rest.take 4).takeWhile isHexDigit).length = 4 then some 5 else none
  | c :: rest =>
    if isOctalDigit c then some (((rest.take 2).takeWhile isOctalDigit).length + 1) else some 1

/-- The number of characters of the variable that a number sign interpolates. -/
def sharpVariableLength (cs : List Char) : Nat :=
  match cs with
  | '@' :: _ =>
    let signs := if startsWith cs "@@" then 2 else 1
    if (cs.drop signs).head?.any (fun c => c.isAlpha || c == '_') then variableLength cs else 0
  | '$' :: rest => let length := globalLength rest; if length = 0 then 0 else length + 1
  | _ => 0

/-- What was read of a text between delimiters. -/
structure Content where
  depth : Nat
  /-- Where plain text started that goes on. -/
  plainStart : Option Nat
  /-- The pieces so far, the last one first. -/
  pieces : List Tree

/-- The content with the plain text that goes on as a piece. -/
def Content.flushed (content : Content) : Reading Content := do
  match content.plainStart with
  | none => return content
  | some start =>
    let piece ← treeFrom "string_content" start []
    return { content with plainStart := none, pieces := piece :: content.pieces }

def Content.takePlain (content : Content) (count : Nat) : Reading Content := do
  let start ← offset
  advance count
  return { content with plainStart := some (content.plainStart.getD start) }

def interpolation (rules : Rules) : Reading Tree := do
  let start ← offset
  advance 2
  let block ← rules.statements []
  take "\x7d"
  treeFrom "interpolation" start block.trees

/-- A variable that a number sign interpolates. -/
def sharpVariable (length : Nat) : Reading Tree := do
  let start ← offset
  advance 1
  let kind := match ← rest with
    | '$' :: _ => "global_variable"
    | '@' :: '@' :: _ => "class_variable"
    | _ => "instance_variable"
  let variableTree ← leaf kind length
  treeFrom "interpolation" start [variableTree]

/-- Reads one piece or character of a text between delimiters, unless its end comes next. -/
def contentStep (rules : Rules) (delimiter : Delimiter) (content : Content) :
    Reading (Option Content) := do
  match ← rest with
  | [] => failure
  | c :: more =>
    if delimiter.words && Text.isBlank c then return none
    else if c = delimiter.closing then
      if content.depth = 0 then return none
      else return some (← { content with depth := content.depth - 1 }.takePlain 1)
    else if c = delimiter.opening then
      return some (← { content with depth := content.depth + 1 }.takePlain 1)
    else if c = '#' && delimiter.interpolated then
      if more.head? = some '\x7b' then do
        let content ← content.flushed
        let piece ← interpolation rules
        return some { content with pieces := piece :: content.pieces }
      else
        match sharpVariableLength more with
        | 0 => return some (← content.takePlain 1)
        | length => do
          let content ← content.flushed
          let piece ← sharpVariable length
          return some { content with pieces := piece :: content.pieces }
    else if c = '\\' then
      if delimiter.interpolated then do
        let content ← content.flushed
        match escapeLength? more with
        | none => failure
        | some length => do
          let piece ← leaf "escape_sequence" (length + 1)
          return some { content with pieces := piece :: content.pieces }
      else do
        guard !more.isEmpty
        return some (← content.takePlain 2)
    else return some (← content.takePlain 1)

/-- The pieces of a text up to its closing delimiter, or to a blank between words. -/
def contentPieces (rules : Rules) (delimiter : Delimiter) : Reading (List Tree) := do
  let content ← repeatedly (contentStep rules delimiter) ⟨0, none, []⟩
  return (← content.flushed).pieces.reverse

/-- The rest of a literal whose opening delimiter was read. -/
def delimited (rules : Rules) (kind : String) (start : Nat) (delimiter : Delimiter) : Reading Tree := do
  let pieces ← contentPieces rules delimiter
  advance 1
  if kind = "regex" then advance ((← rest).takeWhile Char.isLower).length
  treeFrom kind start pieces

/-- The rest of an array of words whose opening delimiter was read. -/
def wordArray (rules : Rules) (kind itemKind : String) (start : Nat) (delimiter : Delimiter) :
    Reading Tree := do
  let items ← repeatedly (fun (items : List Tree) => do
    advance ((← rest).takeWhile Text.isBlank).length
    if (← rest).head? = some delimiter.closing then return none
    else do
      let itemStart ← offset
      let pieces ← contentPieces rules delimiter
      return some ((← treeFrom itemKind itemStart pieces) :: items)) []
  guard ((← rest).head? == some delimiter.closing)
  advance 1
  treeFrom kind start items.reverse

def closingOf : Char → Char
  | '(' => ')'
  | '[' => ']'
  | '\x7b' => '\x7d'
  | '<' => '>'
  | c => c

def isPercentDelimiter (c : Char) : Bool :=
  "([\x7b<|!#/\\@$%^&*)]\x7d>+-~,.?:;_\"'".toList.contains c || c.toNat == 0x60

/-- The kinds of literal that a letter after a percent sign selects, and whether they are
interpolated. -/
def percentKind? : Char → Option (String × Bool)
  | 's' => some ("delimited_symbol", false)
  | 'r' => some ("regex", true)
  | 'x' => some ("subshell", true)
  | 'q' => some ("string", false)
  | 'Q' => some ("string", true)
  | 'w' => some ("string_array", false)
  | 'W' => some ("string_array", true)
  | 'i' => some ("symbol_array", false)
  | 'I' => some ("symbol_array", true)
  | _ => none

/-- The kind of the percent literal at the start of a text, whether it is interpolated, and the
number of characters before its delimiter. -/
def percentAt? (cs : List Char) : Option (String × Bool × Nat) :=
  match cs with
  | '%' :: letter :: rest =>
    match percentKind? letter with
    | some (kind, interpolated) =>
      if rest.head?.any isPercentDelimiter then some (kind, interpolated, 2) else none
    | none => if isPercentDelimiter letter then some ("string", true, 1) else none
  | _ => none

def percentLiteral (rules : Rules) : Reading Tree := do
  let start ← offset
  match percentAt? (← rest) with
  | none => failure
  | some (kind, interpolated, length) => do
    let opening := ((← rest)[length]?).getD '('
    advance (length + 1)
    let delimiter : Delimiter := ⟨opening, closingOf opening, interpolated, false⟩
    match kind with
    | "string_array" => wordArray rules kind "bare_string" start { delimiter with words := true }
    | "symbol_array" => wordArray rules kind "bare_symbol" start { delimiter with words := true }
    | _ => delimited rules kind start delimiter

def quotedString (rules : Rules) : Reading Tree := do
  let start ← offset
  match ← rest with
  | '"' :: _ => advance 1; delimited rules "string" start ⟨'"', '"', true, false⟩
  | '\'' :: _ => advance 1; delimited rules "string" start ⟨'\'', '\'', false, false⟩
  | _ => failure

def atString (cs : List Char) : Bool :=
  match cs with
  | '"' :: _ => true
  | '\'' :: _ => true
  | _ => match percentAt? cs with
    | some (kind, _, 2) => kind == "string"
    | _ => false

/-- A string, or several in a row that become one. -/
def strings (rules : Rules) (context : Context) : Reading Tree := do
  let start ← offset
  let one : Reading Tree := do
    if ← comesNext "%" then percentLiteral rules else quotedString rules
  let first ← one
  let parts ← repeatedly (fun (parts : List Tree) => do
    gap context
    if atString (← rest) then return some ((← one) :: parts) else return none) [first]
  match parts with
  | [_] => return first
  | _ =>
    return treeBetween "chained_string" start ((parts.head?.map (·.stop)).getD start) parts.reverse

/-- A command in backticks. -/
def subshell (rules : Rules) : Reading Tree := do
  let start ← offset
  let tick := Char.ofNat 0x60
  guard ((← rest).head? == some tick)
  advance 1
  delimited rules "subshell" start ⟨tick, tick, true, false⟩

def regex (rules : Rules) : Reading Tree := do
  let start ← offset
  take "/"
  delimited rules "regex" start ⟨'/', '/', true, false⟩

def symbol (rules : Rules) : Reading Tree := do
  let start ← offset
  match ← rest with
  | ':' :: '"' :: _ => advance 2; delimited rules "delimited_symbol" start ⟨'"', '"', true, false⟩
  | ':' :: '\'' :: _ => advance 2; delimited rules "delimited_symbol" start ⟨'\'', '\'', false, false⟩
  | ':' :: more =>
    let length := symbolLength more
    guard (length != 0)
    leaf "simple_symbol" (length + 1)
  | _ => failure

/-- The number of characters of the character literal at the start of a text. -/
def characterLength (cs : List Char) : Nat :=
  match cs with
  | '?' :: '\\' :: c :: rest =>
    if Text.isBlank c then 0
    else
      let braced := match rest with
        | '\x7b' :: more =>
          let digits := (more.takeWhile isHexDigit).length
          if (more.drop digits).head? = some '\x7d' then digits + 2 else 0
        | '-' :: d :: more =>
          if Text.isBlank d then 0
          else match d, more with
            | '\\', e :: '-' :: f :: _ =>
              if (e == 'M' || e == 'C') && !Text.isBlank f then 5 else 2
            | _, _ => 2
        | _ => 0
      if braced != 0 then braced + 3 else (rest.takeWhile isHexDigit).length + 3
  | '?' :: c :: _ => if Text.isBlank c then 0 else 2
  | _ => 0

def character : Reading Tree := do
  let length := characterLength (← rest)
  guard (length != 0)
  leaf "character" length

/-- A heredoc that opens at the start of a text, with the number of characters that open it. -/
def heredocAt? (cs : List Char) : Option (Heredoc × Nat) :=
  match cs with
  | '<' :: '<' :: rest =>
    let sign := if rest.head?.any fun c => c == '-' || c == '~' then 1 else 0
    match rest.drop sign with
    | [] => none
    | c :: more =>
      if c = '"' || c = '\'' || c.toNat = 0x60 then
        let word := more.takeWhile (· != c)
        if word.isEmpty || (more.drop word.length).isEmpty then none
        else some (⟨word, sign = 1⟩, word.length + sign + 4)
      else if isNameChar c then
        let word := c :: more.takeWhile isNameChar
        some (⟨word, sign = 1⟩, word.length + sign + 2)
      else none
  | _ => none

/-- The opening of a heredoc; its text follows at the end of the line. -/
def heredocBeginning : Reading Tree := do
  match heredocAt? (← rest) with
  | none => failure
  | some (heredoc, length) => do
    let tree ← leaf "heredoc_beginning" length
    modify fun place => { place with heredocs := place.heredocs ++ [heredoc] }
    return tree

end LiterateRuby.Ruby.Syntax
