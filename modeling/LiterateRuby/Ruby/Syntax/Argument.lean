import LiterateRuby.Ruby.Syntax.Body
import LiterateRuby.Ruby.Syntax.Literal

/-! # Arguments

The arguments of calls, and the items of arrays and hashes. A call without parentheses takes what
follows on its line as arguments if that can only start one; `startsArgument` decides this from
the blanks around operators.
-/

namespace LiterateRuby.Ruby.Syntax

/-- The number of characters of the name before a colon at the start of a text. -/
def labelLength (cs : List Char) : Nat :=
  let length := nameLength cs
  match cs.drop length with
  | ':' :: rest => if rest.head? = some ':' then 0 else length
  | _ => 0

/-- The words that join or modify what is before them. -/
def joiningWords : List String := ["and", "or", "if", "unless", "while", "until", "rescue", "do", "in"]

/-- Whether a text does not start with a blank or one of some characters. -/
def tightBefore (excluded : List Char) (cs : List Char) : Bool :=
  cs.head?.any fun c => !Text.isBlank c && !excluded.contains c

/-- Whether what comes next, after blanks or not, starts an argument of a call without
parentheses. -/
def startsArgument (context : Context) (spaced : Bool) (cs : List Char) : Bool :=
  match cs with
  | [] => false
  | c :: more =>
    if startsName c then
      labelLength cs != 0 ||
        !(joiningWords.contains (nameAt cs) || context.closers.contains (nameAt cs))
    else if c.isDigit then spaced
    else match c with
      | '"' => true
      | '\'' => true
      | '@' => variableLength cs != 0
      | '$' => true
      | '(' => spaced
      | '[' => spaced
      | '~' => spaced
      | ':' =>
        spaced &&
          (if more.head? = some ':' then isConstantName (nameAt (Text.trimStart (more.drop 1)))
           else symbolLength more != 0 || more.head? = some '"' || more.head? = some '\'')
      | '-' => more.head? = some '>' || (spaced && tightBefore ['='] more)
      | '*' =>
        spaced && (if more.head? = some '*' then tightBefore ['='] (more.drop 1) else tightBefore ['='] more)
      | '&' => spaced && tightBefore ['&', '.', '='] more
      | '<' =>
        spaced && (heredocAt? cs).any fun found => !(found.1.word.head?.any Char.isDigit)
      | '/' => spaced && tightBefore ['='] more
      | '%' => spaced && (percentAt? cs).isSome
      | '?' =>
        spaced && characterLength cs != 0 && !((cs.drop (characterLength cs)).head?.any isNameChar)
      | '!' => spaced && more.head? != some '=' && more.head? != some '~'
      | _ => spaced && c.toNat == 0x60

/-- Whether nothing more of an item comes next. -/
def atItemEnd (context : Context) : Reading Bool := do
  match ← rest with
  | [] => return true
  | c :: _ =>
    return c == ',' || c == ')' || c == ']' || c == '\x7d' || c == '\n' || c == ';' ||
      context.closers.contains (nameAt (← rest))

/-- A value after a sign, if there is one. -/
def signedItem (rules : Rules) (context : Context) (kind : String) (start : Nat) : Reading Tree := do
  let bare ← treeFrom kind start []
  gap context
  if ← atItemEnd context then return bare
  else do
    let value ← rules.value context.operand
    return treeBetween kind start value.stop [value]

/-- The rest of a pair after the colon of its key. -/
def pairAfterColon (rules : Rules) (context : Context) (start : Nat) (key : Tree) : Reading Tree := do
  let bare ← treeFrom "pair" start [inField "key" key]
  blanks
  if ← atItemEnd context then return bare
  else do
    let value ← rules.value context.operand
    return treeBetween "pair" start value.stop [inField "key" key, inField "value" value]

/-- A pair whose key is a label or a string. -/
def labelledPair (rules : Rules) (context : Context) : Reading Tree := do
  let start ← offset
  let length := labelLength (← rest)
  let key ← if length = 0 then quotedString rules else leaf "hash_key_symbol" length
  guard ((← comesNext ":") && !(← comesNext "::"))
  advance 1
  pairAfterColon rules context start key

/-- An expression, or a pair of two. -/
def plainItem (rules : Rules) (context : Context) : Reading Tree := do
  let key ← rules.expression context
  gap context
  if ← takeIf "=>" then do
    blanks
    let value ← rules.value context.operand
    return treeBetween "pair" key.start value.stop
      [inField "key" key, inField "value" value]
  else return key

def argument (rules : Rules) (context : Context) : Reading Tree := do
  let start ← offset
  let cs ← rest
  if labelLength cs != 0 then labelledPair rules context
  else if startsWith cs "..." && (cs.drop 3).head?.any (fun c => c == ')' || c == ' ') then do
    advance 3
    treeFrom "forward_argument" start []
  else if startsWith cs "**" then do
    advance 2
    signedItem rules context "hash_splat_argument" start
  else if startsWith cs "*" then do
    advance 1
    signedItem rules context "splat_argument" start
  else if startsWith cs "&" then do
    advance 1
    signedItem rules context "block_argument" start
  else if startsWith cs "\"" || startsWith cs "'" then
    labelledPair rules context <|> plainItem rules context
  else plainItem rules context

def argumentList (rules : Rules) : Reading Tree := do
  let start ← offset
  take "("
  let items ← bracketItems ")" (argument rules .bracketed)
  treeFrom "argument_list" start items

def commandArguments (rules : Rules) (context : Context) : Reading Tree := do
  let start ← offset
  let item := argument rules context.argument
  let first ← item
  let items ← moreItems (gap context) item first
  return treeBetween "argument_list" start ((items.getLast?.map (·.stop)).getD start) items

def array (rules : Rules) : Reading Tree := do
  let start ← offset
  take "["
  let items ← bracketItems "]" (argument rules .bracketed)
  treeFrom "array" start items

def hash (rules : Rules) : Reading Tree := do
  let start ← offset
  take "\x7b"
  let items ← bracketItems "\x7d" (do
    let item ← argument rules .bracketed
    guard (item.kind == "pair" || item.kind == "hash_splat_argument")
    return item)
  treeFrom "hash" start items

def elementReference (rules : Rules) (object : Tree) : Reading Tree := do
  take "["
  let items ← bracketItems "]" (argument rules .bracketed)
  treeFrom "element_reference" object.start (inField "object" object :: items)

def parenthesized (rules : Rules) : Reading Tree := do
  let start ← offset
  take "("
  let block ← rules.statements []
  take ")"
  treeFrom "parenthesized_statements" start block.trees

end LiterateRuby.Ruby.Syntax
