import LiterateRuby.Ruby.Syntax.Pattern

/-! # Control structures

Conditions, cases, loops, and words that leave a method, a loop or a block.
-/

namespace LiterateRuby.Ruby.Syntax

/-- The branches after the first one of a condition. -/
def alternatives (rules : Rules) : Reading (List Tree) := do
  let branches ← repeatedly (fun (branches : List Tree) => do
    let start ← offset
    if ← takeKeywordIf "elsif" then do
      blanks
      let condition ← rules.statement (Context.ofStatement ["then"])
      takeHeadEnd
      let headStop ← offset
      let block ← rules.statements ["elsif", "else", "end"]
      return some (clauseTree "elsif" start headStop [condition] block :: branches)
    else if ← takeKeywordIf "else" then do
      let _ ← takeStatementEndIf
      let headStop ← offset
      let block ← rules.statements ["end"]
      return some (clauseTree "else" start headStop [] block :: branches)
    else return none) []
  return branches.reverse

def conditional (rules : Rules) (keyword : String) : Reading Tree := do
  let start ← offset
  takeKeyword keyword
  blanks
  let condition ← rules.statement (Context.ofStatement ["then"])
  takeHeadEnd
  let block ← rules.statements ["elsif", "else", "end"]
  let others ← alternatives rules
  takeKeyword "end"
  treeFrom keyword start (inField "condition" condition :: block.trees ++ others)

def loopBody (rules : Rules) : Reading (List Tree) := do
  lineBlanks
  unless ← takeKeywordIf "do" do takeStatementEnd
  let block ← rules.statements ["end"]
  takeKeyword "end"
  return block.trees

def loopHead : Context := (Context.ofStatement []).loopHead

def conditionLoop (rules : Rules) (keyword : String) : Reading Tree := do
  let start ← offset
  takeKeyword keyword
  blanks
  let condition ← rules.statement loopHead
  let body ← loopBody rules
  treeFrom keyword start (inField "condition" condition :: body)

def loopVariable (rules : Rules) : Reading Tree := do
  let start ← offset
  if ← takeIf "*" then do
    let name ← plainName
    treeFrom "rest_assignment" start [name]
  else rules.primary loopHead.operand

def itemLoop (rules : Rules) : Reading Tree := do
  let start ← offset
  takeKeyword "for"
  blanks
  let first ← loopVariable rules
  let targets ← moreItems blanks (loopVariable rules) first
  blanks
  takeKeyword "in"
  blanks
  let items ← rules.value loopHead.operand
  let body ← loopBody rules
  treeFrom "for" start (targets ++ items :: body)

def caseValue (rules : Rules) : Reading Tree := do
  let start ← offset
  let context := (Context.ofStatement ["then"]).operand
  if ← takeIf "*" then do
    let value ← rules.value context
    treeFrom "splat_argument" start [value]
  else rules.value context

def caseBranch (rules : Rules) : Reading (Option Tree) := do
  let start ← offset
  if ← takeKeywordIf "when" then do
    blanks
    let first ← caseValue rules
    let values ← moreItems lineBlanks (caseValue rules) first
    takeHeadEnd
    let headStop ← offset
    let block ← rules.statements ["when", "else", "end"]
    return some (clauseTree "when" start headStop values block)
  else if ← takeKeywordIf "in" then do
    blanks
    let context := { Context.ofStatement ["then"] with statement := false }
    let pattern ← openPattern rules context
    lineBlanks
    let checked ←
      if (← takeKeywordIf "if") || (← takeKeywordIf "unless") then do
        blanks
        let condition ← rules.expression context
        pure [condition]
      else pure []
    takeHeadEnd
    let headStop ← offset
    let block ← rules.statements ["in", "else", "end"]
    return some (clauseTree "in_clause" start headStop (pattern :: checked) block)
  else if ← takeKeywordIf "else" then do
    let _ ← takeStatementEndIf
    let headStop ← offset
    let block ← rules.statements ["end"]
    return some (clauseTree "else" start headStop [] block)
  else return none

def caseExpression (rules : Rules) : Reading Tree := do
  let start ← offset
  takeKeyword "case"
  lineBlanks
  let value ←
    if (← atStatementEnd) || (← comesKeyword "when") then pure []
    else do
      let value ← rules.statement { Context.ofStatement ["when"] with statement := false }
      pure [inField "value" value]
  let _ ← takeStatementEndIf
  blanks
  guard ((← comesKeyword "when") || (← comesKeyword "in"))
  let branches ← repeatedly (fun (branches : List Tree) => do
    match ← caseBranch rules with
    | some branch => return some (branch :: branches)
    | none => return none) []
  takeKeyword "end"
  treeFrom "case" start (value ++ branches.reverse)

/-- Statements with a body of their own. -/
def beginExpression (rules : Rules) : Reading Tree := do
  let start ← offset
  takeKeyword "begin"
  let _ ← takeStatementEndIf
  let body ← bodyUpToEnd rules
  treeFrom "begin" start (body.flatMap Tree.children)

/-- Whether a value comes next, after a word that needs none. -/
def startsValue (context : Context) (cs : List Char) : Bool :=
  startsArgument context true cs || cs.head? = some '\x7b' ||
    (startsWith cs "-" && !startsWith cs "-=") || startsWith cs "(" || startsWith cs "!"

/-- A word that leaves what it stands in, with the values that it leaves with. -/
def leaving (rules : Rules) (context : Context) (keyword : String) : Reading Tree := do
  let start ← offset
  takeKeyword keyword
  let bare ← treeFrom keyword start []
  if (← comesNext "(") && !context.commands then do
    let arguments ← argumentList rules
    treeFrom keyword start [inField "arguments" arguments]
  else do
    lineBlanks
    if context.commands && startsValue context (← rest) then do
      let arguments ← commandArguments rules context
      return treeBetween keyword start arguments.stop [inField "arguments" arguments]
    else return bare

def yieldExpression (rules : Rules) (context : Context) : Reading Tree := do
  let start ← offset
  takeKeyword "yield"
  let bare ← treeFrom "yield" start []
  if ← comesNext "(" then do
    let arguments ← argumentList rules
    treeFrom "yield" start [inField "arguments" arguments]
  else do
    lineBlanks
    if context.commands && startsValue context (← rest) then do
      let arguments ← commandArguments rules context
      return treeBetween "yield" start arguments.stop [inField "arguments" arguments]
    else return bare

/-- Statements that run at the start or the end of a program. -/
def programBlock (rules : Rules) (keyword kind : String) : Reading Tree := do
  let start ← offset
  takeKeyword keyword
  blanks
  take "\x7b"
  let block ← rules.statements []
  take "\x7d"
  treeFrom kind start block.trees

end LiterateRuby.Ruby.Syntax
