import LiterateRuby.Text.Line

/-! # Names in Ruby source

A name is a run of characters that are neither blank nor punctuation and does not start with a
digit. A question or exclamation mark directly after it belongs to it, unless an assignment sign
follows. A keyword is a keyword only where the grammar has room for it and a plain name elsewhere,
so this module does not tell them apart.
-/

namespace LiterateRuby.Ruby.Syntax

/-- The punctuation that no name contains; the backtick is one of its characters too. -/
def punctuation : List Char := ":;\"'@$#.,|^&<=>+-*/\\%?!~()[]\x7b\x7d".toList

def isNameChar (c : Char) : Bool :=
  32 < c.toNat && c.toNat != 0x60 && !punctuation.contains c && !Text.isBlank c

def startsName (c : Char) : Bool := isNameChar c && !c.isDigit

/-- The number of characters of the name at the start of a text, without a mark after it. -/
def plainLength : List Char → Nat
  | [] => 0
  | c :: rest => if startsName c then (rest.takeWhile isNameChar).length + 1 else 0

/-- Whether an assignment sign comes first, and not the start of another operator. -/
def atAssignment : List Char → Bool
  | '=' :: c :: _ => !(c == '=' || c == '~' || c == '>')
  | ['='] => true
  | _ => false

/-- Whether a question or exclamation mark that belongs to the name before it comes first. -/
def atMark : List Char → Bool
  | c :: rest => (c == '?' || c == '!') && !atAssignment rest
  | [] => false

/-- The number of characters of the name at the start of a text, with a mark that belongs to it. -/
def nameLength (cs : List Char) : Nat :=
  let length := plainLength cs
  if length != 0 && atMark (cs.drop length) then length + 1 else length

/-- The name at the start of a text; empty if there is none. -/
def nameAt (cs : List Char) : String := String.ofList (cs.take (nameLength cs))

def isConstantName (name : String) : Bool := name.toList.head?.any Char.isUpper

/-- The operators that can be method names; of two that fit, the one that comes first is taken. -/
def operatorNames : List String :=
  ["[]=", "[]", "<=>", "===", "==", "=~", "!~", "**", "<<", ">>", "<=", ">=", "+@", "-@", "~@", "..",
    "|", "^", "&", "<", ">", "+", "-", "*", "/", "%", "!", "~", String.singleton (Char.ofNat 0x60)]

def startsWith (cs : List Char) (start : String) : Bool := (Text.after? start.toList cs).isSome

/-- The operator at the start of a text that can be a method name. -/
def operatorNameAt? (cs : List Char) : Option String := operatorNames.find? (startsWith cs)

/-- The operators in symbols that are not method names, or that stand before others in a symbol. -/
def symbolOperators : List String := ["!=", "..", "&", "^", "|", "/", "%", "*"]

/-- The number of characters of the operator of a symbol. -/
def symbolOperatorLength (cs : List Char) : Nat :=
  match (operatorNameAt? cs).toList ++ symbolOperators.filter (startsWith cs) with
  | [] => 0
  | found => (found.map (·.length)).foldl max 0

/-- The number of characters of a plain symbol after its colon: a name with signs before and marks
after it, or an operator. -/
def symbolLength (cs : List Char) : Nat :=
  let sign := if startsWith cs "@@" then 2 else if startsWith cs "@" || startsWith cs "$" then 1 else 0
  let afterSign := cs.drop sign
  let first := if afterSign.head?.any isNameChar then 1 else symbolOperatorLength afterSign
  if first = 0 then 0
  else
    let body := first + ((afterSign.drop first).takeWhile isNameChar).length
    let afterBody := afterSign.drop body
    let mark := if afterBody.head?.any fun c => c == '?' || c == '!' then 1 else 0
    let setter := if atAssignment (afterBody.drop mark) then 1 else 0
    sign + body + mark + setter

/-- The characters that name special global variables. -/
def globalMarks : List Char := "!@&'+~=/\\,;.<>*$?:\"".toList ++ [Char.ofNat 0x60]

/-- The number of characters of a global variable after its dollar sign. -/
def globalLength (cs : List Char) : Nat :=
  let dash := if cs.head? = some '-' then 1 else 0
  let afterDash := cs.drop dash
  match afterDash with
  | [] => dash
  | c :: rest =>
    if globalMarks.contains c then dash + 1
    else if c.isDigit then dash + (rest.takeWhile Char.isDigit).length + 1
    else dash + (afterDash.takeWhile fun c => c.isAlphanum || c == '_').length

/-- The number of characters of an instance or class variable, signs included; zero if there is
none. -/
def variableLength (cs : List Char) : Nat :=
  let signs := if startsWith cs "@@" then 2 else 1
  let name := plainLength (cs.drop signs)
  if name = 0 then 0 else signs + name

end LiterateRuby.Ruby.Syntax
