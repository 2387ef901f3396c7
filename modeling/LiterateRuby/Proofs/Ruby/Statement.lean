import LiterateRuby.Proofs.Draft.Emits
import LiterateRuby.Ruby.Walk

/-! # The calls that a statement makes

A statement of a unit body makes calls on a draft, and which calls these are depends on the statement
and its source alone. Here they are listed for every kind of statement that is neither a comment nor a
nested unit (`emits_unitStatement`).
-/

namespace LiterateRuby.Ruby

open Draft (Call Emits emits_given emits_call emits_foldlM emits_forEach emits_nothing)

/-- The entry of a definition with a given name. -/
def entryOf (scene : Scene) (tree : Tree) (context : MethodContext) (name : String) :
    Except WalkFault Draft.MethodEntry := do
  let parameters ← (parametersOf scene (tree.child? "parameters")).result
  let body ← (bodyOf scene tree).result
  return ⟨name, parameters, context.binding, body, context.visibility, context.prose⟩

def methodCalls (scene : Scene) (unit : String) (tree : Tree) (context : MethodContext) :
    Except WalkFault (List Call) := do
  let name ← (ofTree (partText scene.source (tree.child? "name"))).result
  return [.addMethod unit (← entryOf scene tree context name)]

def objectMethodCalls (scene : Scene) (unit : String) (tree : Tree) (context : MethodContext) :
    Except WalkFault (List Call) := do
  let name ← (ofTree (partText scene.source (tree.child? "name"))).result
  match (tree.child? "object").filter (·.kind != "self") with
  | none => return [.addMethod unit (← entryOf scene tree { context with binding := .onSelf } name)]
  | some object => do
    let receiver ← (scene.text object).result
    return [.addMethod unit (← entryOf scene tree { context with binding := .onReceiver }
      (receiver ++ "." ++ name))]

/-- The calls that change the visibility of the methods that an argument names. -/
def retargetCalls (scene : Scene) (unit : String) (visibility : Visibility) (binding : Binding)
    (argument : Tree) : Except WalkFault (List Call) := do
  match ← (ofTree (symbolName? scene.source argument)).result with
  | none => return []
  | some name => return [.setMethodVisibility unit name visibility binding]

/-- The calls of an argument of a visibility keyword. -/
def argumentCalls (scene : Scene) (unit : String) (visibility : Visibility) (prose : Option String)
    (argument : Tree) : Except WalkFault (List Call) :=
  match argument.kind with
  | "method" => methodCalls scene unit argument { visibility := some visibility, prose }
  | "singleton_method" => objectMethodCalls scene unit argument { visibility := some visibility, prose }
  | _ => retargetCalls scene unit visibility .onInstance argument

def visibilityCalls (scene : Scene) (unit : String) (visibility : Visibility) (arguments : List Tree)
    (prose : Option String) : Except WalkFault (List Call) :=
  if arguments.isEmpty then .ok [.setVisibility unit visibility]
  else do return (← arguments.mapM (argumentCalls scene unit visibility prose)).flatten

def requireCalls (scene : Scene) (tree : Tree) : Except WalkFault (List Call) := do
  let name ← (match argumentsOf tree with
    | [argument] => ofTree (plainString? scene.source argument)
    | _ => pure none : Walking (Option String)).result
  match name.filter (· != "") with
  | some name => return [.addRequire name]
  | none => do
    let _ ← (scene.text tree).result
    return []

theorem requireCalls_require {scene : Scene} {tree : Tree} {calls : List Call}
    (success : requireCalls scene tree = .ok calls) : ∀ call ∈ calls, ∃ name, call = .addRequire name := by
  obtain ⟨name, _, remains⟩ := Except.bind_eq_ok_iff.mp success
  cases given : name.filter (· != "") with
  | some name =>
    rw [given] at remains
    cases remains
    simp
  | none =>
    rw [given] at remains
    obtain ⟨_, _, same⟩ := Except.bind_eq_ok_iff.mp remains
    cases same
    simp

private theorem emits_addNamedMethod (scene : Scene) (unit : String) (tree : Tree) (context : MethodContext)
    (name : String) :
    Emits (fun draft => (addNamedMethod scene unit draft tree context name).result)
      (do return [.addMethod unit (← entryOf scene tree context name)]) := by
  unfold addNamedMethod entryOf
  simp only [Outcome.result_bind, bind_assoc, pure_bind]
  refine emits_given _ fun parameters => emits_given _ fun body => ?_
  exact emits_call fun _ => rfl

private theorem emits_addMethod (scene : Scene) (unit : String) (tree : Tree) (context : MethodContext) :
    Emits (fun draft => (addMethod scene unit draft tree context).result)
      (methodCalls scene unit tree context) := by
  unfold addMethod methodCalls
  simp only [Outcome.result_bind]
  exact emits_given _ fun name => emits_addNamedMethod scene unit tree context name

private theorem emits_addObjectMethod (scene : Scene) (unit : String) (tree : Tree) (context : MethodContext) :
    Emits (fun draft => (addObjectMethod scene unit draft tree context).result)
      (objectMethodCalls scene unit tree context) := by
  unfold addObjectMethod objectMethodCalls
  simp only [Outcome.result_bind]
  refine emits_given _ fun name => ?_
  cases (tree.child? "object").filter (·.kind != "self") with
  | none => exact emits_addNamedMethod scene unit tree _ name
  | some object =>
    simp only [Outcome.result_bind]
    exact emits_given _ fun receiver => emits_addNamedMethod scene unit tree _ _

private theorem emits_retarget (scene : Scene) (unit : String) (visibility : Visibility) (binding : Binding)
    (argument : Tree) :
    Emits (fun draft => (retarget scene unit draft visibility binding argument).result)
      (retargetCalls scene unit visibility binding argument) := by
  unfold retarget retargetCalls
  simp only [Outcome.result_bind]
  refine emits_given _ fun name => ?_
  cases name with
  | none => exact emits_nothing
  | some name =>
    simp only [Outcome.result_bind]
    exact Draft.emits_setMethodVisibility WalkFault.refused unit name visibility binding

private theorem emits_visibilityCall (scene : Scene) (unit : String) (visibility : Visibility)
    (arguments : List Tree) (prose : Option String) :
    Emits (fun draft => (visibilityCall scene unit draft visibility arguments prose).result)
      (visibilityCalls scene unit visibility arguments prose) := by
  unfold visibilityCall visibilityCalls
  split
  · exact emits_call fun _ => rfl
  · simp only [Outcome.result_foldlM]
    refine emits_foldlM (fun argument => ?_) arguments
    unfold argumentCalls
    by_cases method : argument.kind = "method"
    · simp only [method]
      exact emits_addMethod scene unit argument _
    · by_cases singleton : argument.kind = "singleton_method"
      · simp only [singleton]
        exact emits_addObjectMethod scene unit argument _
      · simp only
        exact emits_retarget scene unit visibility .onInstance argument

theorem emits_requireCall (scene : Scene) (tree : Tree) :
    Emits (fun draft => (requireCall scene draft tree).result) (requireCalls scene tree) := by
  unfold requireCall requireCalls
  have names (name : Option String) : Emits (fun draft => (match name.filter (· != "") with
      | some name => return draft.addRequire name
      | none => do
        let _ ← scene.text tree
        return draft : Walking Draft).result) (match name.filter (· != "") with
      | some name => return [.addRequire name]
      | none => do
        let _ ← (scene.text tree).result
        return []) := by
    cases name.filter (· != "") with
    | some name => exact Draft.emits_addRequire name
    | none =>
      simp only [Outcome.result_bind]
      exact emits_given _ fun _ => emits_nothing
  cases argumentsOf tree with
  | nil =>
    simp only [Outcome.result_bind]
    exact emits_given _ names
  | cons argument rest =>
    cases rest with
    | nil =>
      simp only [Outcome.result_bind]
      exact emits_given _ names
    | cons other more =>
      simp only [Outcome.result_bind]
      exact emits_given _ names

/-- The calls of a call without receiver that is no visibility keyword. -/
def otherCalls (scene : Scene) (unit : String) (tree : Tree) (name : String) :
    Except WalkFault (List Call) :=
  match Accessor.ofKeyword? name, name with
  | some accessor, _ => do
    let names :=
      ((← (symbolNames scene (argumentsOf tree)).result).filterMap id).filter (· != "")
    return if names.isEmpty then [] else [.addAttribute unit accessor names]
  | _, "require" => requireCalls scene tree
  | _, "include" => do
    return (← (constantNames scene (argumentsOf tree)).result).map (.addInclude unit)
  | _, "extend" => do
    return (← (constantNames scene (argumentsOf tree)).result).map (.addExtend unit)
  | _, "alias_method" => do
    match ← (symbolNames scene (argumentsOf tree)).result with
    | [some new, some old] =>
      return if new = "" || old = "" then [] else [.addAliasMethod unit new old]
    | _ => return []
  | _, _ => return []

def callCalls (scene : Scene) (unit : String) (tree : Tree) (prose : Option String) :
    Except WalkFault (List Call) :=
  if (tree.child? "receiver").isSome then do
    let _ ← (scene.text tree).result
    return []
  else do
    let name := (← (callName? scene tree).result).getD ""
    match Visibility.ofKeyword? name with
    | some visibility => visibilityCalls scene unit visibility (argumentsOf tree) prose
    | none => otherCalls scene unit tree name

def aliasCalls (scene : Scene) (unit : String) (tree : Tree) : Except WalkFault (List Call) :=
  match tree.child? "name", tree.child? "alias" with
  | some new, some old => do
    let new ← (scene.text new).result
    let old ← (scene.text old).result
    return [.addAlias unit (withoutColons new) (withoutColons old)]
  | _, _ => return []

def assignmentCalls (scene : Scene) (unit : String) (tree : Tree) : Except WalkFault (List Call) :=
  match tree.child? "left", tree.child? "right" with
  | some left, some right => do
    let name ← (scene.text left).result
    match left.kind with
    | "constant" =>
      return [.addConstant unit name
        (← (ofTree (decodeValue scene.source scene.root right)).result)]
    | "class_variable" =>
      return [.addClassVariable unit name
        (← (ofTree (decodeValue scene.source scene.root right)).result)]
    | _ => return []
  | _, _ => return []

/-- The calls of an argument of a visibility keyword in a singleton block. -/
def singletonArgumentCalls (scene : Scene) (unit : String) (keyword : Visibility) (argument : Tree) :
    Except WalkFault (List Call) :=
  if argument.kind = "method" then
    methodCalls scene unit argument { binding := .inSingleton, visibility := some keyword }
  else retargetCalls scene unit keyword .inSingleton argument

/-- The calls of a statement of a singleton block, and the active visibility after it. -/
def singletonStatementCalls (scene : Scene) (unit : String) (visibility : Visibility)
    (statement : Tree) : Except WalkFault (List Call × Visibility) := do
  let keyword ← (visibilityKeyword? scene statement).result
  match statement.kind, keyword with
  | "method", _ =>
    let context : MethodContext := { binding := .inSingleton, visibility := some visibility }
    return (← methodCalls scene unit statement context, visibility)
  | _, some keyword => do
    let arguments := if statement.kind = "call" then argumentsOf statement else []
    let calls ← arguments.mapM (singletonArgumentCalls scene unit keyword)
    return (calls.flatten, if arguments.isEmpty then keyword else visibility)
  | _, none => return ([], visibility)

def singletonCalls (scene : Scene) (unit : String) (visibility : Visibility) :
    List Tree → Except WalkFault (List Call)
  | [] => .ok []
  | statement :: rest => do
    let (calls, visibility) ← singletonStatementCalls scene unit visibility statement
    return calls ++ (← singletonCalls scene unit visibility rest)

def singletonClassCalls (scene : Scene) (unit : String) (tree : Tree) : Except WalkFault (List Call) :=
  match tree.child? "value" with
  | some value =>
    if value.kind = "self" then singletonCalls scene unit .pub (statementsOf tree) else .ok []
  | none => .ok []

/-- The calls of a statement of a unit that is neither a comment nor a nested unit. -/
def statementCalls (scene : Scene) (unit : String) (tree : Tree) (prose : Option String) :
    Except WalkFault (List Call) :=
  match tree.kind with
  | "method" => methodCalls scene unit tree { prose }
  | "singleton_method" => objectMethodCalls scene unit tree { prose }
  | "singleton_class" => singletonClassCalls scene unit tree
  | "identifier" => do
    match Visibility.ofKeyword? (← (scene.text tree).result) with
    | some visibility => return [.setVisibility unit visibility]
    | none => return []
  | "call" => callCalls scene unit tree prose
  | "alias" => aliasCalls scene unit tree
  | "assignment" => assignmentCalls scene unit tree
  | _ => return []

private theorem emits_alias (scene : Scene) (unit : String) (tree : Tree) :
    Emits (fun draft => (aliasStatement scene unit draft tree).result) (aliasCalls scene unit tree) := by
  unfold aliasStatement aliasCalls
  cases tree.child? "name" with
  | none => exact emits_nothing
  | some new =>
    cases tree.child? "alias" with
    | none => exact emits_nothing
    | some old =>
      simp only [Outcome.result_bind]
      refine emits_given _ fun new => emits_given _ fun old => ?_
      exact emits_call fun _ => rfl

private theorem emits_assignment (scene : Scene) (unit : String) (tree : Tree) :
    Emits (fun draft => (assignment scene unit draft tree).result)
      (assignmentCalls scene unit tree) := by
  unfold assignment assignmentCalls
  cases tree.child? "left" with
  | none => exact emits_nothing
  | some left =>
    cases tree.child? "right" with
    | none => exact emits_nothing
    | some right =>
      simp only [Outcome.result_bind]
      refine emits_given _ fun name => ?_
      by_cases constant : left.kind = "constant"
      · simp only [constant, Outcome.result_bind]
        exact emits_given _ fun value => emits_call fun _ => rfl
      · by_cases variable' : left.kind = "class_variable"
        · simp only [variable', Outcome.result_bind]
          exact emits_given _ fun value => emits_call fun _ => rfl
        · simp only
          exact emits_nothing

/-- The names of an alias call are the new one and the old one. -/
theorem emits_aliasMethod (unit : String) (names : List (Option String)) :
    Emits (fun draft => (match names with
      | [some new, some old] =>
        if new = "" || old = "" then return draft else ofCall (draft.addAliasMethod unit new old)
      | _ => return draft : Walking Draft).result) (match names with
      | [some new, some old] =>
        return if new = "" || old = "" then [] else [.addAliasMethod unit new old]
      | _ => return []) := by
  by_cases pair : ∃ new old, names = [some new, some old]
  · obtain ⟨new, old, rfl⟩ := pair
    simp only [Outcome.result_ite]
    split
    · exact emits_nothing
    · exact emits_call fun _ => rfl
  · have other (new old : String) : names = [some new, some old] → False := fun same => pair ⟨new, old, same⟩
    simp only
    exact emits_nothing

private theorem emits_unitCall (scene : Scene) (unit : String) (tree : Tree) (prose : Option String) :
    Emits (fun draft => (unitCall scene unit draft tree prose).result)
      (callCalls scene unit tree prose) := by
  unfold unitCall callCalls
  split
  · simp only [Outcome.result_bind]
    exact emits_given _ fun _ => emits_nothing
  · simp only [Outcome.result_bind]
    refine emits_given _ fun name => ?_
    generalize name.getD "" = word
    cases Visibility.ofKeyword? word with
    | some visibility => exact emits_visibilityCall scene unit visibility _ prose
    | none =>
      dsimp only
      unfold otherCalls
      cases Accessor.ofKeyword? word with
      | some accessor =>
        simp only [Outcome.result_bind]
        refine emits_given _ fun names => ?_
        split
        · exact emits_nothing
        · exact emits_call fun _ => rfl
      | none =>
        by_cases required : word = "require"
        · simp only [required]
          exact emits_requireCall scene tree
        by_cases included : word = "include"
        · simp only [included, Outcome.result_bind]
          exact emits_given _ fun names => emits_forEach _ _ (fun _ _ => rfl) names
        by_cases extended : word = "extend"
        · simp only [extended, Outcome.result_bind]
          exact emits_given _ fun names => emits_forEach _ _ (fun _ _ => rfl) names
        by_cases aliased : word = "alias_method"
        · simp only [aliased, Outcome.result_bind]
          exact emits_given _ fun names => emits_aliasMethod unit names
        · simp only
          exact emits_nothing

private theorem emits_singletonStatement (scene : Scene) (unit : String) (visibility : Visibility)
    (statement : Tree) (further : Visibility → Draft → Except WalkFault Draft)
    {late : Visibility → Except WalkFault (List Call)}
    (continues : ∀ visibility, Emits (further visibility) (late visibility)) :
    Emits (fun draft => (singletonStatement scene unit draft visibility statement).result >>=
        fun after => further after.2 after.1)
      (do
        let (calls, visibility) ← singletonStatementCalls scene unit visibility statement
        return calls ++ (← late visibility)) := by
  unfold singletonStatement singletonStatementCalls
  simp only [Outcome.result_bind, bind_assoc]
  refine emits_given _ fun keyword => ?_
  by_cases method : statement.kind = "method"
  · simp only [method, Outcome.result_bind, bind_assoc, Outcome.result_pure, Except.ok_bind]
    exact (emits_addMethod scene unit statement _).bind (continues visibility)
  cases keyword with
  | some keyword =>
    simp only
    generalize (if statement.kind = "call" then argumentsOf statement else []) = items
    have arguments : Emits (fun draft => items.foldlM (fun draft argument =>
          (if argument.kind = "method" then
            addMethod scene unit draft argument { binding := .inSingleton, visibility := some keyword }
          else retarget scene unit draft keyword .inSingleton argument).result) draft)
        (do return (← items.mapM (singletonArgumentCalls scene unit keyword)).flatten) := by
      refine emits_foldlM (fun argument => ?_) items
      unfold singletonArgumentCalls
      split
      · exact emits_addMethod scene unit argument _
      · exact emits_retarget scene unit keyword .inSingleton argument
    have emits := arguments.bind (continues (if items.isEmpty then keyword else visibility))
    simp only [bind_assoc, pure_bind] at emits
    simp only [Outcome.result_bind, bind_assoc, Outcome.result_pure, Except.ok_bind, pure_bind,
      Outcome.result_foldlM]
    exact emits
  | none =>
    have emits : Emits (further visibility) (do return [] ++ (← late visibility)) := by
      simpa using continues visibility
    have silent (draft : Draft) : (if (statement.kind = "comment" || statement.kind = "heredoc_body") = true
          then (return (draft, visibility) : Walking (Draft × Visibility))
          else do
            Outcome.warn (.statementDropped statement.kind unit (scene.line statement))
            return (draft, visibility)).result = .ok (draft, visibility) := by
      split <;> rfl
    simp only [silent, Except.ok_bind]
    exact emits

private theorem emits_singletonStatements (scene : Scene) (unit : String) (visibility : Visibility)
    (statements : List Tree) :
    Emits (fun draft => (singletonStatements scene unit draft visibility statements).result)
      (singletonCalls scene unit visibility statements) := by
  induction statements generalizing visibility with
  | nil => exact emits_nothing
  | cons statement rest ih =>
    simp only [singletonStatements, singletonCalls, Outcome.result_bind]
    exact emits_singletonStatement scene unit visibility statement
      (fun visibility draft => (singletonStatements scene unit draft visibility rest).result) ih

private theorem emits_singletonClass (scene : Scene) (unit : String) (tree : Tree) :
    Emits (fun draft => (singletonClass scene unit draft tree).result)
      (singletonClassCalls scene unit tree) := by
  unfold singletonClass singletonClassCalls
  cases tree.child? "value" with
  | none => exact emits_nothing
  | some value =>
    dsimp only
    split
    · exact emits_singletonStatements scene unit .pub _
    · exact emits_nothing

/-- A statement that is neither a comment nor a nested unit is a run of its calls. -/
theorem emits_unitStatement (scene : Scene) (unit : String) (tree : Tree) (prose : Option String) :
    Emits (fun draft => (unitStatement scene unit draft tree prose).result)
      (statementCalls scene unit tree prose) := by
  unfold unitStatement statementCalls
  by_cases method : tree.kind = "method"
  · simp only [method]
    exact emits_addMethod scene unit tree _
  by_cases objectMethod : tree.kind = "singleton_method"
  · simp only [objectMethod]
    exact emits_addObjectMethod scene unit tree _
  by_cases block : tree.kind = "singleton_class"
  · simp only [block]
    exact emits_singletonClass scene unit tree
  by_cases bare : tree.kind = "identifier"
  · simp only [bare, Outcome.result_bind]
    refine emits_given _ fun word => ?_
    cases Visibility.ofKeyword? word with
    | some visibility => exact emits_call fun _ => rfl
    | none => exact emits_nothing
  by_cases call : tree.kind = "call"
  · simp only [call]
    exact emits_unitCall scene unit tree prose
  by_cases named : tree.kind = "alias"
  · simp only [named]
    exact emits_alias scene unit tree
  by_cases assigned : tree.kind = "assignment"
  · simp only [assigned]
    exact emits_assignment scene unit tree
  · simp only
    exact emits_nothing

end LiterateRuby.Ruby
