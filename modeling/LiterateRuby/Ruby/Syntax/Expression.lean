import LiterateRuby.Ruby.Syntax.Control

/-! # Expressions

A chain is a variable, literal or keyword expression followed by calls, scopes, element references
and blocks. Operations combine chains by operators, which bind more or less tightly. An assignment
can stand wherever its left side can.
-/

namespace LiterateRuby.Ruby.Syntax

/-- A chain that can go on. -/
structure Chain where
  tree : Tree
  /-- Whether the chain ends with a name, which arguments can follow. -/
  callable : Bool
  /-- Whether a block in braces can follow. -/
  blockable : Bool

/-- A chain that neither arguments nor a block can follow. -/
def Chain.closed (tree : Tree) : Chain := ⟨tree, false, false⟩

def lambda (rules : Rules) (context : Context) : Reading Tree := do
  let start ← offset
  take "->"
  blanks
  let parameters ←
    if ← comesNext "(" then do
      let parameters ← parenthesizedParameters rules "lambda_parameters"
      pure [inField "parameters" parameters]
    else if (← comesNext "\x7b") || (← comesKeyword "do") then pure []
    else do
      let parameters ← bareParameters rules context.operand "lambda_parameters"
      pure [inField "parameters" parameters]
  blanks
  let body ← if ← comesNext "\x7b" then braceBlock rules else doBlock rules
  treeFrom "lambda" start (parameters ++ [inField "body" body])

/-- The expression that a keyword starts, for keywords that start one. -/
def keywordExpression? (rules : Rules) (context : Context) (name : String) : Option (Reading Tree) :=
  match name with
  | "if" => some (conditional rules name)
  | "unless" => some (conditional rules name)
  | "while" => some (conditionLoop rules name)
  | "until" => some (conditionLoop rules name)
  | "for" => some (itemLoop rules)
  | "case" => some (caseExpression rules)
  | "begin" => some (beginExpression rules)
  | "def" => some (method rules context)
  | "class" => some (classDefinition rules)
  | "module" => some (moduleDefinition rules)
  | "return" => some (leaving rules context name)
  | "break" => some (leaving rules context name)
  | "next" => some (leaving rules context name)
  | "yield" => some (yieldExpression rules context)
  | _ =>
    if ["redo", "retry", "self", "nil", "true", "false"].contains name then
      some (leaf name name.length)
    else none

/-- A constant of the outermost scope. -/
def rootedConstant : Reading Tree := do
  let start ← offset
  take "::"
  blanks
  guard (isConstantName (nameAt (← rest)))
  let name ← plainName
  treeFrom "scope_resolution" start [inField "name" name]

def namedChain (rules : Rules) (context : Context) : Reading Chain := do
  let name ← upcomingName
  match keywordExpression? rules context name with
  | some expression => return .closed (← expression)
  | none =>
    if name = "super" then return ⟨← leaf name name.length, true, true⟩
    else do
      let tree ← plainName
      return ⟨tree, true, tree.kind == "identifier"⟩

def chainStart (rules : Rules) (context : Context) : Reading Chain := do
  let cs ← rest
  match cs with
  | [] => failure
  | c :: more =>
    if startsName c then namedChain rules context
    else if c.isDigit then return .closed (← number)
    else match c with
      | '"' => return .closed (← strings rules context)
      | '\'' => return .closed (← strings rules context)
      | '%' =>
        if atString cs then return .closed (← strings rules context)
        else return .closed (← percentLiteral rules)
      | ':' =>
        if more.head? = some ':' then return ⟨← rootedConstant, true, false⟩
        else return .closed (← symbol rules)
      | '@' => return .closed (← sigilVariable)
      | '$' => return .closed (← sigilVariable)
      | '(' => return .closed (← parenthesized rules)
      | '[' => return .closed (← array rules)
      | '\x7b' => return .closed (← hash rules)
      | '/' => return .closed (← regex rules)
      | '?' => return .closed (← character)
      | '<' => return .closed (← heredocBeginning)
      | '-' => return .closed (← lambda rules context)
      | _ => return .closed (← subshell rules)

/-- What is called by a chain, in the fields of a call. -/
def calledParts (tree : Tree) : List Tree :=
  match tree.kind, tree.child? "scope", tree.child? "name" with
  | "call", _, _ => tree.children
  | "scope_resolution", some scope, some name => [inField "receiver" scope, inField "method" name]
  | _, _, _ => [inField "method" tree]

def callWith (tree : Tree) (part : Tree) : Tree :=
  treeBetween "call" tree.start part.stop (calledParts tree ++ [part])

def methodCall (rules : Rules) (receiver : Tree) : Reading Chain := do
  blanks
  let cs ← rest
  if startsWith cs "(" then do
    let arguments ← argumentList rules
    let tree ← treeFrom "call" receiver.start
      [inField "receiver" receiver, inField "arguments" arguments]
    return ⟨tree, false, true⟩
  else do
    let name ← match operatorNameAt? cs with
      | some operator => leaf "operator" operator.length
      | none => if startsWith cs "@" || startsWith cs "$" then sigilVariable else plainName
    let tree ← treeFrom "call" receiver.start [inField "receiver" receiver, inField "method" name]
    return ⟨tree, true, true⟩

def scopedChain (rules : Rules) (scope : Tree) : Reading Chain := do
  blanks
  if isConstantName (nameAt (← rest)) then do
    let name ← plainName
    let tree ← treeFrom "scope_resolution" scope.start [inField "scope" scope, inField "name" name]
    return ⟨tree, true, false⟩
  else methodCall rules scope

/-- The call of a chain with arguments that are not in parentheses. -/
def commandCall (rules : Rules) (context : Context) (chain : Chain) : Reading Chain := do
  let arguments ← commandArguments rules context
  let call := callWith chain.tree (inField "arguments" arguments)
  gap context
  if context.doBlocks && (← comesKeyword "do") then do
    let block ← doBlock rules
    return .closed (callWith call (inField "block" block))
  else return .closed call

def chainStep (rules : Rules) (context : Context) (chain : Chain) : Reading (Option Chain) := do
  if chain.callable && (← comesNext "(") && !(← get).spaced then do
    let arguments ← argumentList rules
    return some ⟨callWith chain.tree (inField "arguments" arguments), false, true⟩
  else do
    gap context
    let place ← get
    let cs := place.rest
    let commands := chain.callable && context.commands
    if startsWith cs "." && !startsWith cs ".." then do
      advance 1
      some <$> methodCall rules chain.tree
    else if startsWith cs "&." then do
      advance 2
      some <$> methodCall rules chain.tree
    else if startsWith cs "::" && !place.spaced then do
      advance 2
      some <$> scopedChain rules chain.tree
    else if startsWith cs "[" && !(place.spaced && commands) then do
      let tree ← elementReference rules chain.tree
      return some ⟨tree, false, true⟩
    else if startsWith cs "\x7b" && chain.blockable then do
      let block ← braceBlock rules
      return some (.closed (callWith chain.tree (inField "block" block)))
    else if context.doBlocks && (chain.callable || chain.blockable) && nameAt cs = "do" then do
      let block ← doBlock rules
      return some (.closed (callWith chain.tree (inField "block" block)))
    else if commands && startsArgument context place.spaced cs then
      some <$> commandCall rules context chain
    else return none

def primary (rules : Rules) (context : Context) : Reading Tree := do
  let chain ← repeatedly (chainStep rules context) (← chainStart rules context)
  return chain.tree

def isAssignable (tree : Tree) : Bool :=
  ["identifier", "constant", "instance_variable", "class_variable", "global_variable", "scope_resolution",
    "element_reference", "self", "super", "nil", "true", "false"].contains tree.kind ||
  (tree.kind == "call" && (tree.child? "method").isSome && (tree.child? "receiver").isSome &&
    (tree.child? "arguments").isNone && (tree.child? "block").isNone)

/-- The operators that assign the result of an operation. -/
def assignmentOperators : List String :=
  ["**=", "||=", "&&=", "<<=", ">>=", "+=", "-=", "*=", "/=", "%=", "|=", "&=", "^="]

/-- An assigned value, which can be the items of another. -/
def assignedItem (rules : Rules) (context : Context) : Reading Tree := do
  let start ← offset
  if ← takeIf "*" then do
    let value ← rules.value context.operand
    return treeBetween "splat_argument" start value.stop [value]
  else rescuedValue rules context

/-- The right side of an assignment; in a statement it can be several values. -/
def assignedValue (rules : Rules) (context : Context) : Reading Tree := do
  blanks
  let first ← assignedItem rules context
  if context.statement then do
    let items ← moreItems (gap context) (assignedItem rules context.operand) first
    match items with
    | [_] => return first
    | _ =>
      return treeBetween "right_assignment_list" first.start
        ((items.getLast?.map (·.stop)).getD first.stop) items
  else return first

def assignmentTo (rules : Rules) (context : Context) (kind : String) (left : Tree) : Reading Tree := do
  let right ← assignedValue rules context
  return treeBetween kind left.start right.stop [inField "left" left, inField "right" right]

/-- A chain, or an assignment to one. -/
def operand (rules : Rules) (context : Context) : Reading Tree := do
  let tree ← primary rules context
  gap context
  let cs ← rest
  if !isAssignable tree then return tree
  else if atAssignment cs then do
    advance 1
    assignmentTo rules context "assignment" tree
  else
    match assignmentOperators.find? (startsWith cs) with
    | some operator => do
      advance operator.length
      assignmentTo rules { context with statement := false } "operator_assignment" tree
    | none => return tree

/-- An operator between operands, with the tightness of its binding. -/
structure Operator where
  text : String
  level : Nat
  /-- Whether operands on the right group first. -/
  rightGrouping : Bool := false

/-- The operators; of two that fit, the one that comes first is taken. -/
def operators : List Operator :=
  [⟨"...", 25, false⟩, ⟨"..", 25, false⟩, ⟨"<=>", 40, true⟩, ⟨"===", 40, true⟩, ⟨"==", 40, true⟩,
    ⟨"!=", 40, true⟩, ⟨"=~", 40, true⟩, ⟨"!~", 40, true⟩, ⟨"**", 80, true⟩, ⟨"&&", 35, false⟩,
    ⟨"||", 30, false⟩, ⟨"<<", 60, false⟩, ⟨">>", 60, false⟩, ⟨"<=", 45, false⟩, ⟨">=", 45, false⟩,
    ⟨"<", 45, false⟩, ⟨">", 45, false⟩, ⟨"&", 55, false⟩, ⟨"|", 50, false⟩, ⟨"^", 50, false⟩,
    ⟨"+", 65, false⟩, ⟨"-", 65, false⟩, ⟨"*", 70, false⟩, ⟨"/", 70, false⟩, ⟨"%", 70, false⟩,
    ⟨"?", 20, true⟩]

/-- The operator that comes first, if it is one in the context. -/
def operatorAt? (context : Context) (cs : List Char) : Option Operator :=
  match operators.find? fun operator => startsWith cs operator.text with
  | none => none
  | some operator =>
    if assignmentOperators.any (startsWith cs) || startsWith cs "->" || startsWith cs "&." then none
    else if startsWith cs "|" && !context.bars then none
    else some operator

/-- Whether a range goes on without an end. -/
def atRangeEnd (context : Context) : Reading Bool := do
  if ← atItemEnd context then return true
  else return ["then", "do", "if", "unless", "and", "or"].contains (← upcomingName)

/-- Goes on with an operation after its left operand, if an operator binds tightly enough. -/
def operationStep (rules : Rules) (context : Context) (least : Nat) (left : Tree) :
    Reading (Option Tree) := do
  gap context
  match operatorAt? context (← rest) with
  | none => return none
  | some operator =>
    if operator.level < least then return none
    else do
      advance operator.text.length
      match operator.text with
      | "?" => do
        blanks
        let chosen ← rules.value { context.operand with lines := false }
        blanks
        take ":"
        blanks
        let other ← rules.operation context.operand 20
        return some (treeBetween "conditional" left.start other.stop
          [inField "condition" left, inField "consequence" chosen, inField "alternative" other])
      | ".." | "..." => do
        let bare ← treeFrom "range" left.start [left]
        gap context
        if ← atRangeEnd context then return some bare
        else do
          let last ← rules.operation context.operand 26
          return some (treeBetween "range" left.start last.stop [left, last])
      | _ => do
        blanks
        let right ←
          rules.operation context.operand
            (if operator.rightGrouping then operator.level else operator.level + 1)
        return some (treeBetween "binary" left.start right.stop
          [inField "left" left, inField "right" right])

def unaryOperand (rules : Rules) (context : Context) (start least : Nat) : Reading Tree := do
  blanks
  let inner ← rules.operation { context with statement := false } least
  return treeBetween "unary" start inner.stop [inField "operand" inner]

/-- A negative number, with what it is called with. -/
def negativeNumber (rules : Rules) (context : Context) : Reading Tree := do
  let start ← offset
  advance 1
  let digits ← number
  let tree ← treeFrom "unary" start [inField "operand" digits]
  let chain ← repeatedly (chainStep rules context) (.closed tree)
  return chain.tree

/-- An operand with the operators before it. -/
def unary (rules : Rules) (context : Context) : Reading Tree := do
  let start ← offset
  let cs ← rest
  match cs with
  | '!' :: _ => do advance 1; unaryOperand rules context start 85
  | '~' :: _ => do advance 1; unaryOperand rules context start 85
  | '+' :: _ => do advance 1; unaryOperand rules context start 75
  | '-' :: c :: _ =>
    if c.isDigit then negativeNumber rules context
    else if c = '>' then operand rules context
    else do advance 1; unaryOperand rules context start 75
  | '.' :: '.' :: _ => do
    advance (if startsWith cs "..." then 3 else 2)
    blanks
    let last ← rules.operation context.operand 26
    return treeBetween "range" start last.stop [last]
  | _ =>
    match nameAt cs with
    | "not" => do advance 3; unaryOperand rules context start 0
    | "defined?" => do advance 8; unaryOperand rules context start 21
    | _ => operand rules context

/-- An operation whose operators bind at least as tightly as a number says. -/
def operation (rules : Rules) (context : Context) (least : Nat) : Reading Tree := do
  let first ← unary rules context
  repeatedly (operationStep rules context least) first

end LiterateRuby.Ruby.Syntax
