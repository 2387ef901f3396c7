import LiterateRuby.Draft
import LiterateRuby.Ruby.Diagnostics
import LiterateRuby.Ruby.Indent
import LiterateRuby.Ruby.Literal

/-! # Reading a syntax tree

The bodies of classes and modules are walked in source order. What a statement declares goes into
a draft: nested units, methods with the comments above them, visibility, values, attributes,
mixins and aliases.
-/

namespace LiterateRuby.Ruby

/-- Why a walk stops. -/
inductive WalkFault where
  | tree (fault : TreeFault)
  | parameter (flaw : Parameter.Flaw)
  | unnamedUnit (kind : String) (line : Nat)
  | refused (refusal : Draft.Refusal)
  /-- The tree is deeper than it says. -/
  | tooDeep
  deriving DecidableEq, Repr

def WalkFault.message : WalkFault → String
  | .tree fault => fault.message
  | .parameter flaw => flaw.message
  | .unnamedUnit kind line => kind ++ " without a name at line " ++ toString line
  | .refused refusal => refusal.message
  | .tooDeep => "tree is too deep"

abbrev Walking := Outcome WalkFault

/-- What a walk needs to know throughout. -/
structure Scene where
  source : Source
  root : Tree

/-- What was found so far: the draft, and the paths under which the units nested in a unit live. -/
structure Findings where
  draft : Draft
  paths : Entries String (List String) := []

def ofTree (result : Except TreeFault α) : Walking α := Outcome.ofExcept (result.mapError .tree)

def ofCall (result : Except Draft.Refusal α) : Walking α := Outcome.ofExcept (result.mapError .refused)

/-- The line of a tree, counted from one. -/
def Scene.line (scene : Scene) (tree : Tree) : Nat := scene.source.row tree.start + 1

def Scene.text (scene : Scene) (tree : Tree) : Walking String := ofTree (textOf scene.source tree)

/-- The fields before the body of a definition. -/
def headerFields : List String := ["name", "superclass", "parameters", "object", "value"]

/-- The named children, those that first fill a header field apart. -/
def unheadedChildren (filled : List String) : List Tree → List Tree
  | [] => []
  | child :: rest =>
    match child.label.field with
    | some field =>
      if headerFields.contains field && !filled.contains field then
        unheadedChildren (field :: filled) rest
      else if child.label.named then child :: unheadedChildren filled rest
      else unheadedChildren filled rest
    | none =>
      if child.label.named then child :: unheadedChildren filled rest
      else unheadedChildren filled rest

/-- The statements of a definition, comments included. Comments before the first statement may stand
outside the body. -/
def statementsOf (tree : Tree) : List Tree :=
  match tree.child? "body" with
  | some body =>
    let leading := tree.namedChildren.filter fun child => child.isComment && child.stop ≤ body.start
    if body.kind = "body_statement" then leading ++ body.namedChildren else leading ++ [body]
  | none => unheadedChildren [] tree.children

def argumentsOf (tree : Tree) : List Tree :=
  match tree.child? "arguments" with
  | some arguments => arguments.namedChildren.filter (!·.isComment)
  | none => []

def callName? (scene : Scene) (tree : Tree) : Walking (Option String) :=
  match tree.child? "method" with
  | some method => some <$> scene.text method
  | none => return none

/-- The text of a comment without its sign and one space. -/
def commentText (comment : String) : String :=
  String.ofList (Text.dropStart [' '] (Text.dropStart ['#'] comment.toList))

/-- A run of comments, each on the row after the one before: their texts and the last row. -/
structure ProseRun where
  lines : List String := []
  lastRow : Nat := 0

/-- Whether a tree starts on the row after a run. -/
def ProseRun.touches (run : ProseRun) (scene : Scene) (tree : Tree) : Bool :=
  !run.lines.isEmpty && scene.source.row tree.start == run.lastRow + 1

/-- The run after a comment. A comment after code on its line does not count. -/
def ProseRun.add (run : ProseRun) (scene : Scene) (comment : Tree) : Walking ProseRun :=
  if scene.source.startsLine comment.start then do
    let before := if run.touches scene comment then run.lines else []
    let text ← scene.text comment
    return ⟨before ++ [commentText text], scene.source.row comment.stop⟩
  else return run

/-- The prose that a run gives to a statement directly below it. -/
def ProseRun.proseFor (run : ProseRun) (scene : Scene) (statement : Tree) : Option String :=
  if run.touches scene statement then
    let text := Text.trimmed ("\n".intercalate run.lines)
    if text = "" then none else some text
  else none

/-- The order in which kinds of parameters stand. -/
def parameterRank : Parameter.Kind → Nat
  | .required => 0
  | .optional => 1
  | .rest => 2
  | .requiredKeyword => 3
  | .optionalKeyword => 4
  | .keywordRest => 5
  | .block => 6
  | .forward => 6

/-- Parameters with their ranks: a required one after an optional or a rest parameter keeps its
place after the rest. -/
def rankParameters (afterOptional : Bool) : List Parameter → List (Nat × Parameter)
  | [] => []
  | parameter :: rest =>
    let rank :=
      if parameter.kind = .required && afterOptional then 2 else parameterRank parameter.kind
    let optional := parameter.kind = .optional || parameter.kind = .rest
    (rank, parameter) :: rankParameters (afterOptional || optional) rest

/-- Parameters in the order in which a definition lists them. -/
def orderParameters (parameters : List Parameter) : List Parameter :=
  ((rankParameters false parameters).mergeSort fun left right => left.1 ≤ right.1).map (·.2)

def parameterOf (scene : Scene) (tree : Tree) : Walking Parameter := do
  let name ← match tree.child? "name" with
    | some name => scene.text name
    | none => pure ""
  let value := tree.child? "value"
  let make (kind : Parameter.Kind) (name : String) (default : Option String) : Walking Parameter :=
    Outcome.ofExcept ((Parameter.ofParts kind name default).mapError .parameter)
  match tree.kind, value with
  | "identifier", _ => make .required (← scene.text tree) none
  | "optional_parameter", value => do
    make .optional name (some (← ofTree (partText scene.source value)))
  | "splat_parameter", _ => make .rest name none
  | "hash_splat_parameter", _ => make .keywordRest name none
  | "hash_splat_nil", _ => make .keywordRest "nil" none
  | "block_parameter", _ => make .block name none
  | "keyword_parameter", some value => do make .optionalKeyword name (some (← scene.text value))
  | "keyword_parameter", none => make .requiredKeyword name none
  | "forward_parameter", _ => make .forward "" none
  | _, _ => make .required (← scene.text tree) none

def parametersOf (scene : Scene) (list : Option Tree) : Walking (List Parameter) :=
  match list with
  | none => return []
  | some tree => do
    let parameters ← (tree.namedChildren.filter (!·.isComment)).mapM (parameterOf scene)
    return orderParameters parameters

/-- The body of a definition, from its first statement to its last. -/
def bodyOf (scene : Scene) (tree : Tree) : Walking String := do
  let statements := (statementsOf tree).filter (!·.isComment)
  match statements.head?, statements.getLast? with
  | some first, some last =>
    let text ← ofTree ((scene.source.text first.start last.stop).mapError .undecodable)
    return String.ofList (dedent text.toList)
  | _, _ => return ""

/-- How a statement adds a method. -/
structure MethodContext where
  binding : Binding := .onInstance
  visibility : Option Visibility := none
  prose : Option String := none

def addNamedMethod (scene : Scene) (unit : String) (draft : Draft) (tree : Tree)
    (context : MethodContext) (name : String) : Walking Draft := do
  let parameters ← parametersOf scene (tree.child? "parameters")
  let body ← bodyOf scene tree
  ofCall (draft.addMethod unit
    ⟨name, parameters, context.binding, body, context.visibility, context.prose⟩)

def addMethod (scene : Scene) (unit : String) (draft : Draft) (tree : Tree)
    (context : MethodContext) : Walking Draft := do
  let name ← ofTree (partText scene.source (tree.child? "name"))
  addNamedMethod scene unit draft tree context name

/-- Adds the method that a definition on an object defines. -/
def addObjectMethod (scene : Scene) (unit : String) (draft : Draft) (tree : Tree)
    (context : MethodContext) : Walking Draft := do
  let name ← ofTree (partText scene.source (tree.child? "name"))
  match (tree.child? "object").filter (·.kind != "self") with
  | none => addNamedMethod scene unit draft tree { context with binding := .onSelf } name
  | some object => do
    let receiver ← scene.text object
    addNamedMethod scene unit draft tree { context with binding := .onReceiver }
      (receiver ++ "." ++ name)

/-- Changes the visibility of the methods that an argument names. -/
def retarget (scene : Scene) (unit : String) (draft : Draft) (visibility : Visibility)
    (binding : Binding) (argument : Tree) : Walking Draft := do
  match ← ofTree (symbolName? scene.source argument) with
  | none => return draft
  | some name => do
    let (draft, _) ← ofCall (draft.setMethodVisibility unit name visibility binding)
    return draft

/-- A call that is a visibility keyword: for the methods that follow, or for its arguments. -/
def visibilityCall (scene : Scene) (unit : String) (draft : Draft) (visibility : Visibility)
    (arguments : List Tree) (prose : Option String) : Walking Draft :=
  if arguments.isEmpty then ofCall (draft.setVisibility unit visibility)
  else
    let context : MethodContext := { visibility := some visibility, prose }
    arguments.foldlM (fun draft argument =>
      match argument.kind with
      | "method" => addMethod scene unit draft argument context
      | "singleton_method" => addObjectMethod scene unit draft argument context
      | _ => retarget scene unit draft visibility .onInstance argument) draft

/-- A call that requires a library by a plain string. -/
def requireCall (scene : Scene) (draft : Draft) (tree : Tree) : Walking Draft := do
  let name ← match argumentsOf tree with
    | [argument] => ofTree (plainString? scene.source argument)
    | _ => pure none
  match name.filter (· != "") with
  | some name => return draft.addRequire name
  | none => do
    let _ ← scene.text tree
    return draft

/-- The constants among arguments, without the blanks inside them. -/
def constantNames (scene : Scene) (arguments : List Tree) : Walking (List String) := do
  let names ← arguments.mapM fun argument => do
    let text ← scene.text argument
    if argument.kind = "constant" || argument.kind = "scope_resolution" then
      pure (some (String.ofList (text.toList.filter (!Text.isBlank ·))))
    else pure none
  return names.filterMap id

/-- The names among arguments that are symbols or plain strings. -/
def symbolNames (scene : Scene) (arguments : List Tree) : Walking (List (Option String)) :=
  arguments.mapM fun argument => ofTree (symbolName? scene.source argument)

def unitCall (scene : Scene) (unit : String) (draft : Draft) (tree : Tree) (prose : Option String) :
    Walking Draft := do
  if (tree.child? "receiver").isSome then do
    let _ ← scene.text tree
    return draft
  else do
    let name := (← callName? scene tree).getD ""
    let arguments := argumentsOf tree
    match Visibility.ofKeyword? name, Accessor.ofKeyword? name, name with
    | some visibility, _, _ => visibilityCall scene unit draft visibility arguments prose
    | _, some accessor, _ => do
      let names := ((← symbolNames scene arguments).filterMap id).filter (· != "")
      if names.isEmpty then return draft else ofCall (draft.addAttribute unit accessor names)
    | _, _, "require" => requireCall scene draft tree
    | _, _, "include" => do
      let names ← constantNames scene arguments
      ofCall (names.foldlM (fun draft name => draft.addInclude unit name) draft)
    | _, _, "extend" => do
      let names ← constantNames scene arguments
      ofCall (names.foldlM (fun draft name => draft.addExtend unit name) draft)
    | _, _, "alias_method" => do
      match ← symbolNames scene arguments with
      | [some new, some old] =>
        if new = "" || old = "" then return draft else ofCall (draft.addAliasMethod unit new old)
      | _ => return draft
    | _, _, _ => return draft

def withoutColons (name : String) : String := String.ofList (name.toList.dropWhile (· == ':'))

def aliasStatement (scene : Scene) (unit : String) (draft : Draft) (tree : Tree) : Walking Draft :=
  match tree.child? "name", tree.child? "alias" with
  | some new, some old => do
    let new ← scene.text new
    let old ← scene.text old
    ofCall (draft.addAlias unit (withoutColons new) (withoutColons old))
  | _, _ => return draft

def assignment (scene : Scene) (unit : String) (draft : Draft) (tree : Tree) : Walking Draft :=
  match tree.child? "left", tree.child? "right" with
  | some left, some right => do
    let name ← scene.text left
    match left.kind with
    | "constant" => do
      let value ← ofTree (decodeValue scene.source scene.root right)
      ofCall (draft.addConstant unit name value)
    | "class_variable" => do
      let value ← ofTree (decodeValue scene.source scene.root right)
      ofCall (draft.addClassVariable unit name value)
    | _ => return draft
  | _, _ => return draft

/-- The visibility that a bare word or a call without receiver names. -/
def visibilityKeyword? (scene : Scene) (tree : Tree) : Walking (Option Visibility) := do
  match tree.kind with
  | "identifier" => return Visibility.ofKeyword? (← scene.text tree)
  | "call" =>
    if (tree.child? "receiver").isSome then return none
    else return (← callName? scene tree).bind Visibility.ofKeyword?
  | _ => return none

/-- A statement of a singleton block; `visibility` is the active one of the block. -/
def singletonStatement (scene : Scene) (unit : String) (draft : Draft) (visibility : Visibility)
    (statement : Tree) : Walking (Draft × Visibility) := do
  let keyword ← visibilityKeyword? scene statement
  match statement.kind, keyword with
  | "method", _ => do
    let context : MethodContext := { binding := .inSingleton, visibility := some visibility }
    return (← addMethod scene unit draft statement context, visibility)
  | _, some keyword => do
    let arguments := if statement.kind = "call" then argumentsOf statement else []
    let draft ← arguments.foldlM (fun draft argument =>
      if argument.kind = "method" then
        addMethod scene unit draft argument
          { binding := .inSingleton, visibility := some keyword }
      else retarget scene unit draft keyword .inSingleton argument) draft
    return (draft, if arguments.isEmpty then keyword else visibility)
  | kind, none => do
    if kind = "comment" || kind = "heredoc_body" then return (draft, visibility)
    else do
      Outcome.warn (.statementDropped kind unit (scene.line statement))
      return (draft, visibility)

/-- The statements of a singleton block, which starts public. -/
def singletonStatements (scene : Scene) (unit : String) (draft : Draft) (visibility : Visibility) :
    List Tree → Walking Draft
  | [] => return draft
  | statement :: rest => do
    let (draft, visibility) ← singletonStatement scene unit draft visibility statement
    singletonStatements scene unit draft visibility rest

/-- A singleton class; only that of `self` is read. -/
def singletonClass (scene : Scene) (unit : String) (draft : Draft) (tree : Tree) : Walking Draft :=
  match tree.child? "value" with
  | some value =>
    if value.kind = "self" then singletonStatements scene unit draft .pub (statementsOf tree)
    else return draft
  | none => return draft

def isUnit (tree : Tree) : Bool := tree.kind == "class" || tree.kind == "module"

/-- A statement of a unit that is neither a comment nor a nested unit. -/
def unitStatement (scene : Scene) (unit : String) (draft : Draft) (tree : Tree)
    (prose : Option String) : Walking Draft := do
  match tree.kind with
  | "method" => addMethod scene unit draft tree { prose }
  | "singleton_method" => addObjectMethod scene unit draft tree { prose }
  | "singleton_class" => singletonClass scene unit draft tree
  | "identifier" => do
    match Visibility.ofKeyword? (← scene.text tree) with
    | some visibility => ofCall (draft.setVisibility unit visibility)
    | none => return draft
  | "call" => unitCall scene unit draft tree prose
  | "alias" => aliasStatement scene unit draft tree
  | "assignment" => assignment scene unit draft tree
  | _ => return draft

/-- The statements of a unit body; `nested` reads the units nested in it. -/
def unitStatements (scene : Scene) (nested : Tree → Findings → Walking Findings) (unit : String)
    (run : ProseRun) (findings : Findings) : List Tree → Walking Findings
  | [] => return findings
  | statement :: rest => do
    if statement.isComment then do
      let run ← run.add scene statement
      unitStatements scene nested unit run findings rest
    else do
      let findings ←
        if isUnit statement then nested statement findings
        else do
          let draft ←
            unitStatement scene unit findings.draft statement (run.proseFor scene statement)
          pure { findings with draft }
      unitStatements scene nested unit {} findings rest

/-- The name of a unit: its segments without blanks around them; a leading scope mark is dropped. -/
def unitName (text : String) : String :=
  Text.joinScope (((Text.splitScope text.toList).map fun segment =>
    String.ofList (Text.trim segment)).filter (· != ""))

def superclassName (scene : Scene) (tree : Tree) : Walking String := do
  let target := (tree.namedChildren.find? (!·.isComment)).getD tree
  let text ← scene.text target
  return String.ofList (Text.trim (text.toList.dropWhile (· == '<')))

/-- A class or module and all in it; `fuel` bounds how deep units are nested. -/
def unitTree (scene : Scene) : (fuel : Nat) → List String → Tree → Findings → Walking Findings
  | 0, _, _, _ => Outcome.fail .tooDeep
  | fuel + 1, scope, tree, findings => do
    match tree.child? "name" with
    | none => Outcome.fail (.unnamedUnit tree.kind (scene.line tree))
    | some nameTree => do
      let name := unitName (← scene.text nameTree)
      let kind := if tree.kind = "class" then RubyUnit.Kind.cls else .mod
      let (draft, unit) ← ofCall (findings.draft.addUnit name kind scope)
      let path := (findings.paths.get? unit).getD (scope ++ [name])
      let paths := findings.paths.put unit path
      let draft ← match tree.child? "superclass" with
        | none => pure draft
        | some superclass => do
          let superclass ← superclassName scene superclass
          (draft.setSuperclass unit superclass).mapError .refused
      let statements := statementsOf tree
      let findings ← unitStatements scene (unitTree scene fuel path) unit {} { draft, paths } statements
      if kind = .mod && statements.any isUnit then do
        let draft ← ofCall (findings.draft.markNamespaceOnly unit)
        return { findings with draft }
      else return findings

/-- A statement outside all units. -/
def topStatement (scene : Scene) (findings : Findings) (tree : Tree) : Walking Findings := do
  if isUnit tree then unitTree scene scene.root.depth [] tree findings
  else if tree.kind = "call" then do
    if (← callName? scene tree) = some "require" then
      return { findings with draft := ← requireCall scene findings.draft tree }
    else return findings
  else return findings

/-- Reads a tree into a draft. -/
def walkInto (scene : Scene) (draft : Draft) : Walking Draft := do
  let findings ← scene.root.namedChildren.foldlM (topStatement scene) { draft }
  return findings.draft

/-- Reads a tree into a document. -/
def walk (scene : Scene) (draft : Draft) : Walking Document := do
  let draft ← walkInto scene draft
  ofCall draft.build.2

/-- Why a source cannot be read. -/
inductive SourceFault where
  | empty
  /-- The tree is faulty; what is wrong with it, place by place. -/
  | syntaxErrors (diagnostics : List String)
  | walk (fault : WalkFault)
  deriving DecidableEq, Repr

/-- What is said before the diagnostics of a source. -/
def faultMessage (diagnostics : List String) : String :=
  "Failed to parse Ruby code: " ++ "; ".intercalate diagnostics

/-- Reads a source by its syntax tree into a draft and builds the document. -/
def readTree (draft : Draft) (text : String) (tree : Tree) : Outcome SourceFault Document :=
  if Text.allBlank text.toList then Outcome.fail .empty
  else
    let source := Source.ofText text
    match diagnostics source tree with
    | [] => (walk ⟨source, tree⟩ draft).mapError .walk
    | found => Outcome.fail (.syntaxErrors found)

end LiterateRuby.Ruby
