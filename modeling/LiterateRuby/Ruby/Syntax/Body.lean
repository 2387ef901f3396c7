import LiterateRuby.Ruby.Syntax.ParameterList

/-! # Bodies and blocks

A body is a row of statements, followed by clauses that handle exceptions. A clause ends with its
last statement and what ends that, so comments before that end belong to it.
-/

namespace LiterateRuby.Ruby.Syntax

/-- The words that end a row of statements in a body. -/
def bodyClosers : List String := ["rescue", "else", "ensure", "end"]

/-- The clause of a kind from a byte to the end of its statements. -/
def clauseTree (kind : String) (start headStop : Nat) (head : List Tree) (block : Block) : Tree :=
  treeBetween kind start (if block.trees.isEmpty then headStop else block.stop)
    (head ++ block.trees)

/-- Takes the end of the head of a clause: the word `then`, the end of a statement, or both. -/
def takeHeadEnd : Reading Unit := do
  let ended ← takeStatementEndIf
  if ended then do
    let before ← get
    blanks
    unless ← takeKeywordIf "then" do set before
  else takeKeyword "then"

/-- An exception that a clause handles. -/
def exception (rules : Rules) : Reading Tree := do
  let start ← offset
  let context := (Context.ofStatement ["then"]).operand
  if ← takeIf "*" then do
    let value ← rules.value context
    treeFrom "splat_argument" start [value]
  else rules.value context

/-- A clause that handles exceptions, after its keyword. -/
def rescueClause (rules : Rules) (start : Nat) : Reading Tree := do
  lineBlanks
  let exceptions ←
    if (← atStatementEnd) || (← comesKeyword "then") || (← comesNext "=>") then pure []
    else do
      let first ← exception rules
      moreItems lineBlanks (exception rules) first
  lineBlanks
  let target ←
    if ← takeIf "=>" then do
      blanks
      let target ← rules.primary (Context.ofStatement ["then"]).operand
      pure [target]
    else pure []
  takeHeadEnd
  let headStop ← offset
  let block ← rules.statements bodyClosers
  return clauseTree "rescue" start headStop (exceptions ++ target) block

def bodyClause (rules : Rules) : Reading (Option Tree) := do
  let start ← offset
  if ← takeKeywordIf "rescue" then some <$> rescueClause rules start
  else if ← takeKeywordIf "else" then do
    let _ ← takeStatementEndIf
    let headStop ← offset
    let block ← rules.statements bodyClosers
    return some (clauseTree "else" start headStop [] block)
  else if ← takeKeywordIf "ensure" then do
    let headStop ← offset
    let block ← rules.statements bodyClosers
    return some (clauseTree "ensure" start headStop [] block)
  else return none

/-- A body, if it holds anything. -/
def body? (rules : Rules) : Reading (Option Tree) := do
  let block ← rules.statements bodyClosers
  let clauses ← repeatedly (fun (clauses : List Tree) => do
    match ← bodyClause rules with
    | some clause => return some (clause :: clauses)
    | none => return none) []
  let children := block.trees ++ clauses.reverse
  match children with
  | [] => return none
  | first :: _ =>
    let stop := match clauses with
      | last :: _ => last.stop
      | [] => block.stop
    return some (treeBetween "body_statement" first.start stop children)

/-- A body up to the keyword that ends it, as children of what it is the body of. -/
def bodyUpToEnd (rules : Rules) : Reading (List Tree) := do
  let body ← body? rules
  takeKeyword "end"
  return (body.map (inField "body")).toList

def blockParameters (rules : Rules) : Reading (List Tree) := do
  blanks
  if ← comesNext "|" then return [inField "parameters" (← barredParameters rules)] else return []

def braceBlock (rules : Rules) : Reading Tree := do
  let start ← offset
  take "\x7b"
  let parameters ← blockParameters rules
  let block ← rules.statements []
  take "\x7d"
  let body := match block.trees with
    | [] => []
    | trees =>
      [inField "body" (treeBetween "block_body" block.start block.stop trees)]
  treeFrom "block" start (parameters ++ body)

def doBlock (rules : Rules) : Reading Tree := do
  let start ← offset
  takeKeyword "do"
  let parameters ← blockParameters rules
  let body ← bodyUpToEnd rules
  treeFrom "do_block" start (parameters ++ body)

end LiterateRuby.Ruby.Syntax
