import LiterateRuby.Ruby.Syntax.Reading

/-! # Rules of the grammar

The rules of the grammar refer to each other. Each part of the grammar takes the rules for phrases
nested in it as an argument; the grammar ties them together by depth. What a phrase may contain
depends on where it stands, which is its context.
-/

namespace LiterateRuby.Ruby.Syntax

/-- Where an expression stands. -/
structure Context where
  /-- The words that end what is around the expression. -/
  closers : List String
  /-- Whether a line feed ends the expression. -/
  lines : Bool
  /-- Whether calls can have arguments without parentheses. -/
  commands : Bool
  /-- Whether a block after `do` belongs to a call here. -/
  doBlocks : Bool
  /-- Whether the expression is a statement: several values can be assigned, and patterns
  matched. -/
  statement : Bool
  /-- Whether a bar is an operator. -/
  bars : Bool
  deriving Repr

namespace Context

def ofStatement (closers : List String) : Context :=
  { closers, lines := true, commands := true, doBlocks := true, statement := true, bars := true }

def bracketed : Context :=
  { closers := [], lines := false, commands := true, doBlocks := true, statement := false, bars := true }

/-- An expression between brackets that cannot be a call without parentheses. -/
def bracketedOperand : Context := { bracketed with commands := false }

def operand (context : Context) : Context := { context with commands := false, statement := false }

def argument (context : Context) : Context := { context with doBlocks := false, statement := false }

/-- The head of a loop, which a `do` ends. -/
def loopHead (context : Context) : Context :=
  { context with closers := "do" :: context.closers, doBlocks := false }

end Context

structure Block where
  trees : List Tree
  start : Nat
  /-- The end of the last statement or of what ends it. -/
  stop : Nat

/-- The rules that are used by others. -/
structure Rules where
  /-- Statements up to one of some words, to a closing bracket or to the end. -/
  statements : List String → Reading Block
  /-- A statement. -/
  statement : Context → Reading Tree
  /-- An expression with `and`, `or` and `not`. -/
  expression : Context → Reading Tree
  /-- An operation whose operators bind at least as tightly as a number says. -/
  operation : Context → Nat → Reading Tree
  /-- A variable, literal, call or bracketed expression. -/
  primary : Context → Reading Tree
  /-- A pattern. -/
  pattern : Context → Reading Tree

/-- Rules by which nothing can be read. -/
def Rules.none : Rules :=
  ⟨fun _ => failure, fun _ => failure, fun _ => failure, fun _ _ => failure, fun _ => failure,
    fun _ => failure⟩

def gap (context : Context) : Reading Unit := if context.lines then lineBlanks else blanks

/-- An operation with any operators. -/
def Rules.value (rules : Rules) (context : Context) : Reading Tree := rules.operation context 0

def atStatementEnd : Reading Bool := do
  match ← rest with
  | [] => return true
  | c :: _ => return c == '\n' || c == ';'

/-- Whether a word that ends what is around comes next. -/
def atCloser (closers : List String) : Reading Bool := return closers.contains (← upcomingName)

/-- Takes the end of a statement, which is a semicolon or a line feed that is left to be skipped. -/
def takeStatementEnd : Reading Unit := do
  lineBlanks
  unless ← takeIf ";" do
    match ← rest with
    | '\n' :: _ => return
    | _ => failure

def takeStatementEndIf : Reading Bool := do
  lineBlanks
  if ← takeIf ";" then return true
  else return (← rest).head? == some '\n'

/-- Items separated by commas, the first of which was read. -/
def moreItems (skip : Reading Unit) (item : Reading α) (first : α) : Reading (List α) := do
  let items ← repeatedly (fun (items : List α) => do
    skip
    if ← takeIf "," then do
      blanks
      let next ← item
      return some (next :: items)
    else return none) [first]
  return items.reverse

/-- Items separated by commas up to a closing bracket, which may follow a comma. -/
def bracketItems (closing : String) (item : Reading α) : Reading (List α) := do
  let items ← repeatedly (fun (state : List α × Bool) => do
    blanks
    let (items, ready) := state
    if !ready || (← comesNext closing) then return none
    else do
      let next ← item
      blanks
      let separated ← takeIf ","
      return some (next :: items, separated)) ([], true)
  blanks
  take closing
  return items.1.reverse

end LiterateRuby.Ruby.Syntax
