import LiterateRuby.Ruby.Syntax.Rules

/-! # Parameter lists

The parameters of methods, lambdas and blocks. A default value ends where the list goes on, so
between bars a bar is no operator in it.
-/

namespace LiterateRuby.Ruby.Syntax

/-- The name of a parameter, which is not that of a constant. -/
def parameterName : Reading Tree := do
  let cs ← rest
  let length := plainLength cs
  guard (length != 0 && !isConstantName (nameAt cs))
  leaf "identifier" length

/-- A parameter after its sign, whose name may be left out. -/
def signedParameter (kind : String) (start : Nat) : Reading Tree := do
  lineBlanks
  let cs ← rest
  if plainLength cs != 0 && !isConstantName (nameAt cs) then do
    let name ← parameterName
    treeFrom kind start [inField "name" name]
  else return treeBetween kind start (start + (if kind = "hash_splat_parameter" then 2 else 1)) []

/-- Whether a keyword parameter has no default value: the list goes on or ends. -/
def atParameterEnd (context : Context) : Reading Bool := do
  match ← rest with
  | [] => return true
  | c :: _ => return c == ',' || c == ')' || c == ';' || (c == '|' && !context.bars) || c == '\n'

/-- A parameter that starts with its name. -/
def namedParameter (rules : Rules) (context : Context) : Reading Tree := do
  let start ← offset
  let name ← parameterName
  let cs ← rest
  if startsWith cs ":" && !startsWith cs "::" then do
    advance 1
    let bare ← treeFrom "keyword_parameter" start [inField "name" name]
    gap context
    if ← atParameterEnd context then return bare
    else do
      let value ← rules.value context
      return treeBetween "keyword_parameter" start value.stop
        [inField "name" name, inField "value" value]
  else do
    gap context
    if atAssignment (← rest) then do
      advance 1
      blanks
      let value ← rules.value context
      return treeBetween "optional_parameter" start value.stop
        [inField "name" name, inField "value" value]
    else return name

/-- The rest of a parameter list after its opening bracket, up to the closing one. Names of block
locals may follow a semicolon. -/
def parametersUntil (item : Reading Tree) (trailing : Bool) (closing : String) :
    Reading (List Tree) := do
  blanks
  let items ←
    if (← comesNext closing) || (← comesNext ";") then pure []
    else do
      let first ← item
      let items ← repeatedly (fun (items : List Tree) => do
        blanks
        if ← takeIf "," then do
          blanks
          if trailing && (← comesNext closing) then return none
          else return some ((← item) :: items)
        else return none) [first]
      pure items.reverse
  blanks
  let locals ←
    if ← takeIf ";" then do
      blanks
      let first ← parameterName
      moreItems blanks parameterName first
    else pure []
  blanks
  take closing
  return items ++ locals

/-- A parameter; `depth` bounds how deep lists are nested in it. -/
def parameter (rules : Rules) (context : Context) : (depth : Nat) → Reading Tree
  | 0 => failure
  | depth + 1 => do
    let start ← offset
    if ← takeIf "..." then treeFrom "forward_parameter" start []
    else if ← takeIf "**" then do
      blanks
      if ← takeKeywordIf "nil" then treeFrom "hash_splat_nil" start []
      else signedParameter "hash_splat_parameter" start
    else if ← takeIf "*" then signedParameter "splat_parameter" start
    else if ← takeIf "&" then signedParameter "block_parameter" start
    else if ← takeIf "(" then do
      let items ← parametersUntil (parameter rules context depth) false ")"
      treeFrom "destructured_parameter" start items
    else namedParameter rules context

def anyParameter (rules : Rules) (context : Context) : Reading Tree := do
  parameter rules context (← get).limit

def parenthesizedParameters (rules : Rules) (kind : String) : Reading Tree := do
  let start ← offset
  take "("
  let items ← parametersUntil (anyParameter rules .bracketedOperand) false ")"
  treeFrom kind start items

def barredParameters (rules : Rules) : Reading Tree := do
  let start ← offset
  take "|"
  let context := { Context.bracketedOperand with bars := false }
  let items ← parametersUntil (anyParameter rules context) true "|"
  treeFrom "block_parameters" start items

/-- Parameters without brackets; the first is not a list of its own. -/
def bareParameters (rules : Rules) (context : Context) (kind : String) : Reading Tree := do
  let start ← offset
  guard !(← comesNext "(")
  let item := anyParameter rules context
  let first ← item
  let items ← moreItems (gap context) item first
  return treeBetween kind start ((items.getLast?.map (·.stop)).getD start) items

end LiterateRuby.Ruby.Syntax
