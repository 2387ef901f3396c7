import LiterateRuby.Ruby.Syntax.Argument

/-! # Definitions

Classes, modules, singleton classes, methods and aliases. Where a name is expected every word is a
name, keywords included.
-/

namespace LiterateRuby.Ruby.Syntax

/-- An instance, class or global variable. -/
def sigilVariable : Reading Tree := do
  match ← rest with
  | '@' :: more =>
    let length := variableLength ('@' :: more)
    guard (length != 0)
    leaf (if more.head? = some '@' then "class_variable" else "instance_variable") length
  | '$' :: more => leaf "global_variable" (globalLength more + 1)
  | _ => failure

/-- A name of an identifier or a constant, with a mark that belongs to it. -/
def plainName : Reading Tree := do
  let cs ← rest
  let length := nameLength cs
  guard (length != 0)
  leaf (if isConstantName (nameAt cs) then "constant" else "identifier") length

def methodName (rules : Rules) : Reading Tree := do
  let cs ← rest
  match operatorNameAt? cs, cs with
  | some operator, _ => leaf "operator" operator.length
  | none, ':' :: _ => symbol rules
  | none, '@' :: _ => sigilVariable
  | none, '$' :: _ => sigilVariable
  | none, _ => do
    let name ← plainName
    if atAssignment (← rest) && plainLength cs = nameLength cs then do
      advance 1
      treeFrom "setter" name.start [inField "name" name]
    else return name

/-- Whether the sign after the object of a method comes next on the line. Three dots are a parameter. -/
def comesSign (cs : List Char) : Bool :=
  let next := cs.dropWhile fun c => c == ' ' || c == '\t'
  startsWith next "::" || (startsWith next "." && !startsWith next "..")

/-- The object that a method is defined on, with the sign after it, if there is one. -/
def methodObject? (rules : Rules) : Reading (Option Tree) := do
  let cs ← rest
  let sign : Reading Unit := do
    lineBlanks
    if ← takeIf "." then pure () else take "::"
    blanks
  if startsWith cs "(" then do
    advance 1
    blanks
    let object ← rules.value .bracketed
    blanks
    take ")"
    sign
    return some object
  else if startsWith cs "@" || startsWith cs "$" then do
    let object ← sigilVariable
    sign
    return some object
  else if plainLength cs != 0 && comesSign (cs.drop (plainLength cs)) then do
    let object ← if ← comesKeyword "self" then leaf "self" 4 else plainName
    sign
    return some object
  else return none

/-- A value with a value for the case that it raises an exception. -/
def rescuedValue (rules : Rules) (context : Context) : Reading Tree := do
  let value ← rules.value context
  gap context
  if ← takeKeywordIf "rescue" then do
    blanks
    let handler ← rules.value context
    return treeBetween "rescue_modifier" value.start handler.stop
      [inField "body" value, inField "handler" handler]
  else return value

/-- The rest of a method definition after its parameters. -/
def methodRest (rules : Rules) (context : Context) (mayBeBare : Bool) :
    Reading (List Tree × Option Nat) := do
  lineBlanks
  if mayBeBare && atAssignment (← rest) then do
    advance 1
    blanks
    let body ← rescuedValue rules { context with statement := false }
    return ([inField "body" body], some body.stop)
  else do
    let body ← bodyUpToEnd rules
    return (body, none)

def method (rules : Rules) (context : Context) : Reading Tree := do
  let start ← offset
  takeKeyword "def"
  blanks
  let object ← methodObject? rules
  let name ← methodName rules
  lineBlanks
  let header := (object.map (inField "object")).toList ++ [inField "name" name]
  let kind := if object.isSome then "singleton_method" else "method"
  let finish (children : List Tree) (rest : List Tree × Option Nat) : Reading Tree := do
    return treeBetween kind start (rest.2.getD (← offset)) (children ++ rest.1)
  if ← comesNext "(" then do
    let parameters ← parenthesizedParameters rules "method_parameters"
    let children := header ++ [inField "parameters" parameters]
    lineBlanks
    if atAssignment (← rest) then finish children (← methodRest rules context true)
    else do
      let _ ← takeStatementEndIf
      finish children (← methodRest rules context false)
  else if atAssignment (← rest) then finish header (← methodRest rules context true)
  else if ← takeStatementEndIf then finish header (← methodRest rules context false)
  else do
    let parameters ← bareParameters rules (Context.ofStatement []).operand "method_parameters"
    takeStatementEnd
    finish (header ++ [inField "parameters" parameters]) (← methodRest rules context false)

def unitPath : Reading Tree := do
  let start ← offset
  let rooted ← takeIf "::"
  if rooted then blanks
  let constant : Reading Tree := do
    let cs ← rest
    let length := plainLength cs
    guard (length != 0)
    leaf (if isConstantName (nameAt cs) then "constant" else "identifier") length
  let first ← constant
  let path ←
    if rooted then do
      let tree ← treeFrom "scope_resolution" start [inField "name" first]
      pure tree
    else pure first
  let path ← repeatedly (fun (path : Tree) => do
    if ← takeIf "::" then do
      blanks
      let name ← constant
      return some (← treeFrom "scope_resolution" start [inField "scope" path, inField "name" name])
    else return none) path
  let last := (path.child? "name").getD path
  guard (last.kind == "constant")
  return path

def singletonClass (rules : Rules) (start : Nat) : Reading Tree := do
  take "<<"
  blanks
  let object ← rules.value (Context.ofStatement []).operand
  takeStatementEnd
  let body ← bodyUpToEnd rules
  treeFrom "singleton_class" start (inField "value" object :: body)

def classDefinition (rules : Rules) : Reading Tree := do
  let start ← offset
  takeKeyword "class"
  blanks
  if ← comesNext "<<" then singletonClass rules start
  else do
    let path ← unitPath
    lineBlanks
    let superclass ←
      if ← comesNext "<" then do
        let sign ← offset
        advance 1
        blanks
        let expression ← rules.expression { Context.ofStatement [] with statement := false }
        takeStatementEnd
        pure [inField "superclass" (treeBetween "superclass" sign expression.stop [expression])]
      else do
        let _ ← takeStatementEndIf
        pure []
    let body ← bodyUpToEnd rules
    treeFrom "class" start (inField "name" path :: superclass ++ body)

def moduleDefinition (rules : Rules) : Reading Tree := do
  let start ← offset
  takeKeyword "module"
  blanks
  let path ← unitPath
  let _ ← takeStatementEndIf
  let body ← bodyUpToEnd rules
  treeFrom "module" start (inField "name" path :: body)

def aliasDefinition (rules : Rules) : Reading Tree := do
  let start ← offset
  takeKeyword "alias"
  blanks
  let new ← methodName rules
  blanks
  let old ← methodName rules
  treeFrom "alias" start [inField "name" new, inField "alias" old]

def undefinition (rules : Rules) : Reading Tree := do
  let start ← offset
  takeKeyword "undef"
  blanks
  let first ← methodName rules
  let names ← moreItems lineBlanks (methodName rules) first
  return treeBetween "undef" start ((names.getLast?.map (·.stop)).getD start) names

end LiterateRuby.Ruby.Syntax
