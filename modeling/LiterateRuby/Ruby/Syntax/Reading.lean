import LiterateRuby.Number.Natural
import LiterateRuby.Ruby.Syntax.Name
import LiterateRuby.Ruby.Tree

/-! # Reading Ruby source

Reading goes from token to token. What stands between tokens is skipped: blanks, comments, and the
texts of heredocs, which start at the end of the line that opens them. Comments and heredoc texts
are kept as extra trees.

A line feed ends a statement, except before a comment or before a dot that continues a chain of
calls.
-/

namespace LiterateRuby.Ruby.Syntax

/-- A heredoc whose text has not been reached. -/
structure Heredoc where
  /-- The line that ends the text. -/
  word : List Char
  /-- Whether that line may be indented. -/
  indented : Bool

structure Place where
  /-- What is left. -/
  rest : List Char
  /-- The number of bytes before. -/
  offset : Nat
  /-- Whether something was skipped since the last token. -/
  spaced : Bool
  /-- The heredocs that were opened on this line. -/
  heredocs : List Heredoc
  /-- The comments and heredoc texts so far, the last one first. -/
  extras : List Tree
  /-- A number that is greater than that of the characters left. -/
  limit : Nat

abbrev Reading := StateT Place Option

def treeBetween (kind : String) (start stop : Nat) (children : List Tree) : Tree :=
  .node { kind, start, stop } children

def byteCount (cs : List Char) : Nat := Number.total (cs.map fun c => c.utf8Size)

namespace Place

def atStart (cs : List Char) : Place := ⟨cs, 0, false, [], [], cs.length + 1⟩

def after (place : Place) (count : Nat) : Place :=
  { place with
    rest := place.rest.drop count
    offset := place.offset + byteCount (place.rest.take count)
    spaced := false }

/-- The place after a number of characters between tokens. -/
def afterSpace (place : Place) (count : Nat) : Place := { place.after count with spaced := true }

/-- The place after a number of characters that become an extra tree. -/
def afterExtra (place : Place) (kind : String) (count : Nat) : Place :=
  let next := place.afterSpace count
  { next with extras := treeBetween kind place.offset next.offset [] :: place.extras }

end Place

/-- The number of characters of the line that ends a heredoc, if it comes first. -/
def endingLength? (heredoc : Heredoc) (cs : List Char) : Option Nat :=
  let isTab (c : Char) : Bool := c == ' ' || c == '\t'
  let indent := if heredoc.indented then (cs.takeWhile isTab).length else 0
  match Text.after? heredoc.word (cs.drop indent) with
  | none => none
  | some rest =>
    match rest.dropWhile isTab with
    | [] => some (indent + heredoc.word.length)
    | c :: _ => if c == '\n' || c == '\r' then some (indent + heredoc.word.length) else none

/-- The number of characters of the text of a heredoc, from the line feed before it to its last
line. A text without a last line extends to the end of the source. -/
def heredocLength (heredoc : Heredoc) : List Char → Nat
  | [] => 0
  | c :: rest =>
    if c = '\n' then
      match endingLength? heredoc rest with
      | some length => length + 1
      | none => heredocLength heredoc rest + 1
    else heredocLength heredoc rest + 1

/-- The number of characters up to the end of the line. -/
def lineLength (cs : List Char) : Nat := (cs.takeWhile (· != '\n')).length

/-- The number of characters up to and including the line that ends a block comment. -/
def blockCommentEnd? : List Char → Option Nat
  | [] => none
  | c :: rest =>
    if startsWith (c :: rest) "=end" then some (lineLength (c :: rest))
    else (blockCommentEnd? rest).map (· + 1)

/-- The number of characters of the block comment that comes first. -/
def blockCommentLength? (cs : List Char) : Option Nat :=
  if startsWith cs "=begin" then
    let opening := lineLength cs
    (blockCommentEnd? (cs.drop opening)).map (opening + ·)
  else none

/-- Whether a backslash joins the line to the next one. -/
def joinsLines (rest : List Char) : Bool :=
  rest.head?.any fun c => c == '\n' || c == '\r' || c == ' ' || c == '\t'

/-- Whether a line feed before a text does not end a statement: a comment or a dot of a call comes
next. -/
def continuesLine (cs : List Char) : Bool :=
  match cs.dropWhile fun c => c == ' ' || c == '\t' || c == '\r' || c == '\n' with
  | '#' :: _ => true
  | '.' :: rest => rest.head? != some '.'
  | '&' :: rest => rest.head? == some '.'
  | _ => false

/-- Skips what is between tokens, as far as it is; with `lines`, line feeds that end a statement are
left. -/
def skipFrom (lines : Bool) : (fuel : Nat) → Place → Place
  | 0, place => place
  | fuel + 1, place =>
    match place.rest with
    | [] => place
    | '\n' :: rest =>
      match place.heredocs with
      | heredoc :: more =>
        skipFrom lines fuel
          { place.afterExtra "heredoc_body" (heredocLength heredoc place.rest) with heredocs := more }
      | [] =>
        if lines && !continuesLine rest then place else skipFrom lines fuel (place.afterSpace 1)
    | '#' :: rest => skipFrom lines fuel (place.afterExtra "comment" (lineLength rest + 1))
    | '\\' :: rest =>
      if joinsLines rest then
        skipFrom lines fuel (place.afterSpace (if startsWith rest "\r\n" then 3 else 2))
      else place
    | c :: _ =>
      if Text.isBlank c then skipFrom lines fuel (place.afterSpace 1)
      else if lines then place
      else
        match blockCommentLength? place.rest with
        | some length => skipFrom lines fuel (place.afterExtra "comment" length)
        | none => place

/-- Skips everything between tokens. -/
def blanks : Reading Unit := modify fun place => skipFrom false place.limit place

/-- Skips what is between tokens up to the end of the statement. -/
def lineBlanks : Reading Unit := modify fun place => skipFrom true place.limit place

def rest : Reading (List Char) := return (← get).rest

/-- The number of bytes read. -/
def offset : Reading Nat := return (← get).offset

/-- Takes a number of characters as part of a token. -/
def advance (count : Nat) : Reading Unit := modify (·.after count)

def comesNext (text : String) : Reading Bool := return startsWith (← rest) text

def take (text : String) : Reading Unit := do
  guard (← comesNext text)
  advance text.length

def takeIf (text : String) : Reading Bool := do
  if ← comesNext text then do
    advance text.length
    return true
  else return false

/-- The name that comes next; empty if there is none. -/
def upcomingName : Reading String := return nameAt (← rest)

def comesKeyword (keyword : String) : Reading Bool := return (← upcomingName) == keyword

def takeKeyword (keyword : String) : Reading Unit := do
  guard (← comesKeyword keyword)
  advance keyword.length

def takeKeywordIf (keyword : String) : Reading Bool := do
  if ← comesKeyword keyword then do
    advance keyword.length
    return true
  else return false

/-- A tree from a byte to here. -/
def treeFrom (kind : String) (start : Nat) (children : List Tree) : Reading Tree :=
  return treeBetween kind start (← offset) children

/-- A tree without children of a number of characters. -/
def leaf (kind : String) (count : Nat) : Reading Tree := do
  let start ← offset
  advance count
  treeFrom kind start []

def inField (field : String) : Tree → Tree
  | .node label children => .node { label with field := some field } children

/-- Repeats a step until it declines, at most a number of times. -/
def iterate (step : α → Reading (Option α)) : Nat → α → Reading α
  | 0, state => return state
  | times + 1, state => do
    match ← step state with
    | some next => iterate step times next
    | none => return state

/-- Repeats a step that reads something until it declines. -/
def repeatedly (step : α → Reading (Option α)) (start : α) : Reading α := do
  iterate step (← get).limit start

end LiterateRuby.Ruby.Syntax
