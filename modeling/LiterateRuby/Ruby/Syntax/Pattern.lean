import LiterateRuby.Ruby.Syntax.Definition

/-! # Patterns

The patterns of `case`, and of matches after an expression: values, ranges, arrays, hashes,
alternatives and bindings.
-/

namespace LiterateRuby.Ruby.Syntax

/-- A part of an array pattern that takes the other items. -/
def splatPattern : Reading Tree := do
  let start ← offset
  take "*"
  if plainLength (← rest) != 0 then do
    let name ← plainName
    treeFrom "splat_parameter" start [inField "name" name]
  else treeFrom "splat_parameter" start []

def patternItem (rules : Rules) (context : Context) : Reading Tree := do
  if ← comesNext "*" then splatPattern else rules.pattern context

/-- Whether a key of a hash pattern stands for itself. -/
def atKeyEnd (context : Context) : Reading Bool := do
  if ← atItemEnd context then return true
  else return ["then", "if", "unless", "and", "or"].contains (← upcomingName)

def patternEntry (rules : Rules) (context : Context) : Reading Tree := do
  let start ← offset
  if ← takeIf "**" then do
    let name ← plainName
    treeFrom "hash_splat_parameter" start [inField "name" name]
  else do
    let length := labelLength (← rest)
    let key ← if length = 0 then quotedString rules else leaf "hash_key_symbol" length
    take ":"
    let bare ← treeFrom "keyword_pattern" start [inField "key" key]
    gap context
    if ← atKeyEnd context then return bare
    else do
      let value ← rules.pattern context
      return treeBetween "keyword_pattern" start value.stop
        [inField "key" key, inField "value" value]

def startsEntry (cs : List Char) : Bool := startsWith cs "**" || labelLength cs != 0

/-- An item of a pattern in brackets after a constant. -/
def constantItem (rules : Rules) (context : Context) : Reading Tree := do
  if startsEntry (← rest) then patternEntry rules context else patternItem rules context

/-- A constant, with patterns for its parts. -/
def constantPattern (rules : Rules) : Reading Tree := do
  let path ← unitPath
  if ← takeIf "(" then do
    let items ← bracketItems ")" (constantItem rules .bracketed)
    treeFrom "array_pattern" path.start (inField "class" path :: items)
  else if ← takeIf "[" then do
    let items ← bracketItems "]" (constantItem rules .bracketed)
    treeFrom "array_pattern" path.start (inField "class" path :: items)
  else return path

def singlePattern (rules : Rules) (context : Context) : Reading Tree := do
  let start ← offset
  let cs ← rest
  match cs with
  | '[' :: _ => do
    advance 1
    let items ← bracketItems "]" (patternItem rules .bracketed)
    treeFrom "array_pattern" start items
  | '\x7b' :: _ => do
    advance 1
    let items ← bracketItems "\x7d" (patternEntry rules .bracketed)
    treeFrom "hash_pattern" start items
  | '(' :: _ => do
    advance 1
    blanks
    let inner ← rules.pattern .bracketed
    blanks
    take ")"
    treeFrom "parenthesized_pattern" start [inner]
  | '^' :: _ => do
    advance 1
    let inner ← rules.primary context.operand
    treeFrom "pin" start [inner]
  | _ => do
    let value := rules.operation { context.operand with bars := false } 25
    if isConstantName (nameAt cs) || startsWith cs "::" then do
      let path ← constantPattern rules
      if ← takeIf ".." then do
        let _ ← takeIf "."
        if ← atItemEnd context then treeFrom "range" start [path]
        else treeFrom "range" start [path, ← value]
      else return path
    else value

def pattern (rules : Rules) (context : Context) : Reading Tree := do
  let first ← singlePattern rules context
  let alternatives ← repeatedly (fun (found : List Tree) => do
    gap context
    if ← takeIf "|" then do
      blanks
      return some ((← singlePattern rules context) :: found)
    else return none) [first]
  let body := match alternatives with
    | [_] => first
    | last :: _ =>
      treeBetween "alternative_pattern" first.start last.stop alternatives.reverse
    | [] => first
  gap context
  if ← takeIf "=>" then do
    blanks
    let name ← plainName
    treeFrom "as_pattern" first.start [body, inField "name" name]
  else return body

/-- A pattern that need not be in brackets although it has several items. -/
def openPattern (rules : Rules) (context : Context) : Reading Tree := do
  if startsEntry (← rest) then do
    let first ← patternEntry rules context
    let entries ← moreItems (gap context) (patternEntry rules context) first
    return treeBetween "hash_pattern" first.start ((entries.getLast?.map (·.stop)).getD 0)
      entries
  else do
    let first ← patternItem rules context
    let items ← moreItems (gap context) (patternItem rules context) first
    match items with
    | [_] => return first
    | _ =>
      return treeBetween "array_pattern" first.start ((items.getLast?.map (·.stop)).getD 0)
        items

end LiterateRuby.Ruby.Syntax
