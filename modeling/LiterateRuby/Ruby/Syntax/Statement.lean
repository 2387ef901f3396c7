import LiterateRuby.Ruby.Syntax.Expression

/-! # Statements

A statement is an expression, an assignment to several variables, or an alias, and can have
modifiers. Statements end at line feeds and semicolons; the last one of a row need not end.
-/

namespace LiterateRuby.Ruby.Syntax

/-- An item on the left of an assignment to several variables; `depth` bounds how deep lists are
nested in it. -/
def leftItem (rules : Rules) (context : Context) : (depth : Nat) → Reading Tree
  | 0 => failure
  | depth + 1 => do
    let start ← offset
    if ← takeIf "*" then do
      if (← rest).head?.any fun c => startsName c || c == '@' || c == '$' then do
        let inner ← rules.primary context.operand
        return treeBetween "rest_assignment" start inner.stop [inner]
      else treeFrom "rest_assignment" start []
    else if ← takeIf "(" then do
      let items ← bracketItems ")" (leftItem rules context depth)
      treeFrom "destructured_left_assignment" start items
    else do
      let tree ← rules.primary context.operand
      guard (isAssignable tree)
      return tree

/-- An assignment to several variables, of which some were read. -/
def multipleAssignment (rules : Rules) (context : Context) (first : Option Tree) : Reading Tree := do
  let start := (first.map (·.start)).getD (← offset)
  let item : Reading Tree := do leftItem rules context (← get).limit
  let first ← match first with
    | some tree => pure tree
    | none => item
  let items ← repeatedly (fun (items : List Tree) => do
    gap context
    if ← takeIf "," then do
      blanks
      if atAssignment (← rest) then return none else return some ((← item) :: items)
    else return none) [first]
  gap context
  guard (atAssignment (← rest))
  advance 1
  let left := treeBetween "left_assignment_list" start ((items.head?.map (·.stop)).getD start)
    items.reverse
  assignmentTo rules context "assignment" left

/-- An operation, or in a statement an assignment to several variables. -/
def assignmentOrOperation (rules : Rules) (context : Context) : Reading Tree := do
  let cs ← rest
  if !context.statement then operation rules context 0
  else if startsWith cs "*" then multipleAssignment rules context none
  else if startsWith cs "(" then
    (do
      let tree ← operation rules context 0
      gap context
      guard !((← comesNext ",") || atAssignment (← rest))
      return tree) <|> multipleAssignment rules context none
  else do
    let tree ← operation rules context 0
    gap context
    if (← comesNext ",") && isAssignable tree then multipleAssignment rules context (some tree)
    else return tree

/-- An expression that a pattern can follow. -/
def matching (rules : Rules) (context : Context) : Reading Tree := do
  let value ← assignmentOrOperation rules context
  if context.statement then do
    gap context
    let patternAfter (kind : String) : Reading Tree := do
      blanks
      let pattern ← openPattern rules context
      return treeBetween kind value.start pattern.stop
        [inField "value" value, inField "pattern" pattern]
    if ← takeIf "=>" then patternAfter "match_pattern"
    else if ← takeKeywordIf "in" then patternAfter "test_pattern"
    else return value
  else return value

def expression (rules : Rules) (context : Context) : Reading Tree := do
  let first ← matching rules context
  repeatedly (fun (left : Tree) => do
    gap context
    if (← takeKeywordIf "and") || (← takeKeywordIf "or") then do
      blanks
      let right ← matching rules context
      return some (treeBetween "binary" left.start right.stop
        [inField "left" left, inField "right" right])
    else return none) first

def modifierStep (rules : Rules) (context : Context) (body : Tree) : Reading (Option Tree) := do
  gap context
  let keyword ← upcomingName
  if ["if", "unless", "while", "until", "rescue"].contains keyword then do
    advance keyword.length
    blanks
    let condition ← rules.expression context
    return some (treeBetween (keyword ++ "_modifier") body.start condition.stop
      [inField "body" body, condition])
  else return none

def statement (rules : Rules) (context : Context) : Reading Tree := do
  let first ← match ← upcomingName with
    | "alias" => aliasDefinition rules
    | "undef" => undefinition rules
    | "BEGIN" => programBlock rules "BEGIN" "begin_block"
    | "END" => programBlock rules "END" "end_block"
    | _ => expression rules context
  repeatedly (modifierStep rules context) first

structure Row where
  /-- The statements so far, the last one first. -/
  trees : List Tree
  stop : Nat
  /-- Whether the last statement did not end, so that none can follow. -/
  isOpen : Bool

/-- Reads a statement of a row, unless the row ends. -/
def rowStep (rules : Rules) (closers : List String) (row : Row) : Reading (Option Row) := do
  if row.isOpen then return none
  else do
    blanks
    if ← comesNext ";" then do
      let empty ← leaf "empty_statement" 1
      return some ⟨empty :: row.trees, ← offset, false⟩
    else if (← rest).isEmpty || (← comesNext ")") || (← comesNext "\x7d") || (← comesNext "]") ||
        (← atCloser closers) then return none
    else do
      let tree ← statement rules (.ofStatement closers)
      let ended ← takeStatementEndIf
      let here ← offset
      return some ⟨tree :: row.trees, if ended then here else tree.stop, !ended⟩

def statements (rules : Rules) (closers : List String) : Reading Block := do
  let start ← offset
  let row ← repeatedly (rowStep rules closers) ⟨[], start, false⟩
  let trees := row.trees.reverse
  return ⟨trees, (trees.head?.map (·.start)).getD start, row.stop⟩

end LiterateRuby.Ruby.Syntax
