import LiterateRuby.Proofs.Ruby.Statement

/-! # The events of a walk

A walk over a syntax tree is a sequence of events: units are opened and closed, libraries are required,
and the statements of unit bodies are read, each with the statements before it in its body. The events
depend on the tree alone, and `walkInto_eq_ok_iff` says that a tree is read into a draft exactly if the
calls of its events can be run on the draft.
-/

namespace LiterateRuby.Ruby

open Draft (Call Emits)

/-- What a walk does at one place. -/
inductive Event where
  /-- A call that no body makes. -/
  | call (made : Call)
  /-- The start of a body of a unit. -/
  | opening (unit : String) (calls : List Call)
  /-- A statement of a unit body that is neither a comment nor a nested unit, with all statements before
  it in the body. -/
  | statement (unit : String) (before : List Tree) (statement : Tree) (calls : List Call)

def Event.calls : Event → List Call
  | .call made => [made]
  | .opening _ calls => calls
  | .statement _ _ _ calls => calls

def callsOf (events : List Event) : List Call := events.flatMap Event.calls

@[simp] theorem callsOf_nil : callsOf [] = [] := rfl

@[simp] theorem callsOf_cons (event : Event) (rest : List Event) :
    callsOf (event :: rest) = event.calls ++ callsOf rest := rfl

@[simp] theorem callsOf_append (first second : List Event) :
    callsOf (first ++ second) = callsOf first ++ callsOf second := List.flatMap_append

/-- The paths under which the units nested in a unit live. -/
abbrev Paths := Entries String (List String)

/-- Events, and the paths that are known after them. -/
abbrev Eventful := Paths → Except WalkFault (List Event × Paths)

def Eventful.andThen (first second : Eventful) : Eventful := fun paths => do
  let (early, paths) ← first paths
  let (late, paths) ← second paths
  return (early ++ late, paths)

/-- Events of calls that are made out without the paths. -/
def Eventful.of (event : List Call → List Event) (calls : Except WalkFault (List Call)) : Eventful :=
  fun paths => do return (event (← calls), paths)

/-- The events of the statements of a unit body; `nested` gives those of the units nested in it. -/
def bodyEvents (scene : Scene) (nested : Tree → Eventful) (unit : String) (run : ProseRun)
    (before : List Tree) : List Tree → Eventful
  | [] => fun paths => .ok ([], paths)
  | statement :: rest =>
    if statement.isComment then fun paths => do
      let run ← (run.add scene statement).result
      bodyEvents scene nested unit run (before ++ [statement]) rest paths
    else if isUnit statement then
      (nested statement).andThen (bodyEvents scene nested unit {} (before ++ [statement]) rest)
    else
      (Eventful.of (fun calls => [.statement unit before statement calls])
        (statementCalls scene unit statement (run.proseFor scene statement))).andThen
        (bodyEvents scene nested unit {} (before ++ [statement]) rest)

def nameOf (scene : Scene) (tree : Tree) : Except WalkFault String :=
  match tree.child? "name" with
  | none => .error (.unnamedUnit tree.kind (scene.line tree))
  | some nameTree => do return unitName (← (scene.text nameTree).result)

def kindOf (tree : Tree) : RubyUnit.Kind := if tree.kind = "class" then .cls else .mod

/-- The calls that the header of a class makes for its superclass. -/
def superclassCalls (scene : Scene) (unit : String) (tree : Tree) : Except WalkFault (List Call) :=
  match tree.child? "superclass" with
  | none => .ok []
  | some superclass => do return [.setSuperclass unit (← (superclassName scene superclass).result)]

theorem superclassCalls_inherit {scene : Scene} {unit : String} {tree : Tree} {calls : List Call}
    (success : superclassCalls scene unit tree = .ok calls) :
    ∀ call ∈ calls, ∃ superclass, call = .setSuperclass unit superclass := by
  unfold superclassCalls at success
  split at success
  · cases success
    simp
  · obtain ⟨superclass, _, same⟩ := Except.bind_eq_ok_iff.mp success
    cases same
    simp

def closingCalls (unit : String) (tree : Tree) : List Call :=
  if kindOf tree = .mod && (statementsOf tree).any isUnit then [.markNamespaceOnly unit] else []

theorem closingCalls_mark (unit : String) (tree : Tree) :
    ∀ call ∈ closingCalls unit tree, call = .markNamespaceOnly unit := by
  unfold closingCalls
  split <;> simp

/-- The path under which the units nested in a unit live: that of its first body. -/
def pathIn (paths : Paths) (scope : List String) (name : String) : List String :=
  (paths.get? (Draft.keyOf name scope)).getD (scope ++ [name])

/-- The events of a class or module and all in it. -/
def unitEvents (scene : Scene) : (fuel : Nat) → List String → Tree → Eventful
  | 0, _, _ => fun _ => .error .tooDeep
  | fuel + 1, scope, tree => fun paths => do
    let name ← nameOf scene tree
    let unit := Draft.keyOf name scope
    let superclass ← superclassCalls scene unit tree
    let path := pathIn paths scope name
    let body := bodyEvents scene (unitEvents scene fuel path) unit {} [] (statementsOf tree)
    let closing := Eventful.of (·.map .call) (.ok (closingCalls unit tree))
    let (events, paths) ← body.andThen closing (paths.put unit path)
    return (.opening unit (.addUnit name (kindOf tree) scope :: superclass) :: events, paths)

def topCalls (scene : Scene) (tree : Tree) : Except WalkFault (List Call) :=
  if tree.kind = "call" then do
    if (← (callName? scene tree).result) = some "require" then requireCalls scene tree else return []
  else .ok []

theorem topCalls_require {scene : Scene} {tree : Tree} {calls : List Call}
    (success : topCalls scene tree = .ok calls) : ∀ call ∈ calls, ∃ name, call = .addRequire name := by
  unfold topCalls at success
  split at success
  · obtain ⟨called, _, remains⟩ := Except.bind_eq_ok_iff.mp success
    split at remains
    · exact requireCalls_require remains
    · cases remains
      simp
  · cases success
    simp

def topEvents (scene : Scene) (tree : Tree) : Eventful :=
  if isUnit tree then unitEvents scene scene.root.depth [] tree
  else Eventful.of (·.map .call) (topCalls scene tree)

def eventsOf (scene : Scene) : List Tree → Eventful
  | [] => fun paths => .ok ([], paths)
  | tree :: rest => (topEvents scene tree).andThen (eventsOf scene rest)

/-- A walk is a run of the calls of its events, or fails as they do. -/
def Walks (walk : Findings → Except WalkFault Findings) (events : Eventful) : Prop :=
  ∀ findings after, walk findings = .ok after ↔
    ∃ made, events findings.paths = .ok (made, after.paths) ∧
      findings.draft.Runs (callsOf made) after.draft

private theorem walks_nothing : Walks .ok (fun paths => .ok ([], paths)) := by
  intro findings after
  obtain ⟨draft, paths⟩ := findings
  obtain ⟨next, known⟩ := after
  simp [and_comm, eq_comm]

private theorem walks_error (fault other : WalkFault) : Walks (fun _ => .error fault) (fun _ => .error other) := by
  intro findings after
  simp

private theorem Walks.andThen {first second : Findings → Except WalkFault Findings} {early late : Eventful}
    (walks : Walks first early) (continues : Walks second late) :
    Walks (fun findings => first findings >>= second) (early.andThen late) := by
  intro findings after
  rw [Except.bind_eq_ok_iff]
  constructor
  · rintro ⟨middle, begun, ended⟩
    obtain ⟨made, success, run⟩ := (walks findings middle).mp begun
    obtain ⟨more, further, tail⟩ := (continues middle after).mp ended
    refine ⟨made ++ more, ?_, by simpa using Draft.runs_append.mpr ⟨middle.draft, run, tail⟩⟩
    simp [Eventful.andThen, success, further, pure, Except.pure]
  · rintro ⟨_, success, run⟩
    obtain ⟨⟨made, paths⟩, begun, remains⟩ := Except.bind_eq_ok_iff.mp success
    obtain ⟨⟨more, known⟩, ended, same⟩ := Except.bind_eq_ok_iff.mp remains
    cases same
    rw [callsOf_append] at run
    obtain ⟨draft, enter, tail⟩ := Draft.runs_append.mp run
    exact ⟨⟨draft, paths⟩, (walks findings ⟨draft, paths⟩).mpr ⟨made, begun, enter⟩,
      (continues ⟨draft, paths⟩ after).mpr ⟨more, ended, tail⟩⟩

/-- A walk that depends on something read beforehand. -/
theorem walks_given {α : Type} (first : Except WalkFault α)
    {walk : α → Findings → Except WalkFault Findings} {events : α → Eventful}
    (each : ∀ value, Walks (walk value) (events value)) :
    Walks (fun findings => first >>= fun value => walk value findings)
      (fun paths => first >>= fun value => events value paths) := by
  cases first with
  | error fault => exact walks_error fault fault
  | ok value => exact each value

/-- A walk that changes the draft by the calls of one event and the paths in a known way, and goes on
from there as the paths before tell. -/
theorem walks_emitted {change : Draft → Except WalkFault Draft} {calls : Except WalkFault (List Call)}
    (emits : Emits change calls) {event : List Call → List Event}
    (told : ∀ made, callsOf (event made) = made) (place : Paths → Paths)
    {further : Paths → Findings → Except WalkFault Findings} {events : Paths → Eventful}
    (continues : ∀ known, Walks (further known) (events known)) :
    Walks (fun findings => change findings.draft >>= fun draft =>
        further findings.paths ⟨draft, place findings.paths⟩)
      (fun paths => do
        let made ← calls
        let (later, after) ← events paths (place paths)
        return (event made ++ later, after)) := by
  intro findings after
  rw [Except.bind_eq_ok_iff]
  constructor
  · rintro ⟨draft, changed, success⟩
    obtain ⟨made, rfl, run⟩ := (emits findings.draft draft).mp changed
    obtain ⟨later, happens, tail⟩ :=
      (continues findings.paths ⟨draft, place findings.paths⟩ after).mp success
    refine ⟨event made ++ later, ?_, ?_⟩
    · simp [happens, pure, Except.pure]
    · rw [callsOf_append, told]
      exact Draft.runs_append.mpr ⟨draft, run, tail⟩
  · rintro ⟨_, success, run⟩
    obtain ⟨made, rfl, remains⟩ := Except.bind_eq_ok_iff.mp success
    obtain ⟨⟨later, paths⟩, happens, same⟩ := Except.bind_eq_ok_iff.mp remains
    cases same
    rw [callsOf_append, told] at run
    obtain ⟨draft, enter, tail⟩ := Draft.runs_append.mp run
    exact ⟨draft, (emits findings.draft draft).mpr ⟨made, rfl, enter⟩,
      (continues findings.paths ⟨draft, place findings.paths⟩ after).mpr ⟨later, happens, tail⟩⟩

/-- A walk that changes the draft alone. -/
theorem walks_change {change : Draft → Except WalkFault Draft} {calls : Except WalkFault (List Call)}
    (emits : Emits change calls) {event : List Call → List Event}
    (told : ∀ made, callsOf (event made) = made) :
    Walks (fun findings => change findings.draft >>= fun draft => .ok { findings with draft })
      (Eventful.of event calls) := by
  intro findings after
  refine (walks_emitted emits told id (fun _ => walks_nothing) findings after).trans ?_
  cases calls <;> simp [Eventful.of, pure, Except.pure]

theorem callsOf_call (made : List Call) : callsOf (made.map .call) = made := by
  induction made with
  | nil => rfl
  | cons call rest ih => rw [List.map_cons, callsOf_cons, ih]; rfl

/-- The statements of a body are walked as their events tell, if the units nested in it are. -/
theorem walks_body (scene : Scene) {nested : Tree → Findings → Walking Findings}
    {events : Tree → Eventful}
    (inner : ∀ tree, Walks (fun findings => (nested tree findings).result) (events tree)) (unit : String)
    (run : ProseRun) (before statements : List Tree) :
    Walks (fun findings => (unitStatements scene nested unit run findings statements).result)
      (bodyEvents scene events unit run before statements) := by
  induction statements generalizing run before with
  | nil => exact walks_nothing
  | cons statement rest ih =>
    unfold unitStatements bodyEvents
    split
    · simp only [Outcome.result_bind]
      exact walks_given _ fun run => ih run _
    · split
      · simp only [Outcome.result_bind]
        exact (inner statement).andThen (ih {} _)
      · simp only [Outcome.result_bind]
        have told (made : List Call) :
            callsOf [.statement unit before statement made] = made := List.append_nil made
        have walks := (walks_change (emits_unitStatement scene unit statement
          (run.proseFor scene statement)) told).andThen (ih {} (before ++ [statement]))
        simp only [bind_assoc] at walks
        exact walks

def openUnit (scene : Scene) (scope : List String) (tree : Tree) (name : String) (draft : Draft) :
    Except WalkFault Draft :=
  (draft.addUnit name (kindOf tree) scope).mapError WalkFault.refused >>= fun (draft, unit) =>
    (match tree.child? "superclass" with
      | none => pure draft
      | some superclass => do
        let superclass ← superclassName scene superclass
        (draft.setSuperclass unit superclass).mapError WalkFault.refused : Walking Draft).result

private theorem emits_openUnit (scene : Scene) (scope : List String) (tree : Tree) (name : String) :
    Emits (openUnit scene scope tree name) (do
      return .addUnit name (kindOf tree) scope ::
        (← superclassCalls scene (Draft.keyOf name scope) tree)) := by
  refine Draft.emits_addUnit WalkFault.refused name (kindOf tree) scope
    (fun unit draft => (match tree.child? "superclass" with
        | none => pure draft
        | some superclass => do
          let superclass ← superclassName scene superclass
          (draft.setSuperclass unit superclass).mapError WalkFault.refused : Walking Draft).result) ?_
  unfold superclassCalls
  cases tree.child? "superclass" with
  | none => exact Draft.emits_nothing
  | some superclass =>
    simp only [Outcome.result_bind]
    exact Draft.emits_given _ fun value => Draft.emits_setSuperclass WalkFault.refused _ value

def closeUnit (unit : String) (tree : Tree) (draft : Draft) : Except WalkFault Draft :=
  if kindOf tree = .mod && (statementsOf tree).any isUnit then
    (draft.markNamespaceOnly unit).mapError .refused
  else .ok draft

private theorem emits_closeUnit (unit : String) (tree : Tree) :
    Emits (closeUnit unit tree) (.ok (closingCalls unit tree)) := by
  unfold closeUnit closingCalls
  split
  · exact Draft.emits_call fun _ => rfl
  · exact Draft.emits_nothing

private theorem closeUnit_result (unit : String) (tree : Tree) (findings : Findings) :
    (if kindOf tree = .mod && (statementsOf tree).any isUnit then do
        let draft ← ofCall (findings.draft.markNamespaceOnly unit)
        return { findings with draft }
      else return findings : Walking Findings).result =
      closeUnit unit tree findings.draft >>= fun draft => .ok { findings with draft } := by
  unfold closeUnit
  split
  · rw [Outcome.result_bind]
    rfl
  · rfl

/-- A unit is named, opened, walked through and closed. -/
theorem unitTree_result (scene : Scene) (fuel : Nat) (scope : List String) (tree : Tree)
    (findings : Findings) :
    (unitTree scene (fuel + 1) scope tree findings).result = (do
      let name ← nameOf scene tree
      let draft ← openUnit scene scope tree name findings.draft
      let unit := Draft.keyOf name scope
      let path := pathIn findings.paths scope name
      let findings ← (unitStatements scene (unitTree scene fuel path) unit {}
        ⟨draft, findings.paths.put unit path⟩ (statementsOf tree)).result
      let draft ← closeUnit unit tree findings.draft
      .ok { findings with draft }) := by
  rw [unitTree, nameOf]
  cases tree.child? "name" with
  | none => rfl
  | some nameTree =>
    simp only [Outcome.result_bind, bind_assoc, pure_bind]
    refine congrArg _ (funext fun text => ?_)
    unfold openUnit pathIn
    cases opened : findings.draft.addUnit (unitName text) (kindOf tree) scope with
    | error refusal =>
      simp only [ofCall, kindOf] at opened ⊢
      rw [opened]
      rfl
    | ok result =>
      obtain ⟨draft, unit⟩ := result
      obtain ⟨rfl, _⟩ := Draft.addUnit_touches opened
      have closes := closeUnit_result (Draft.keyOf (unitName text) scope) tree
      simp only [ofCall, kindOf] at opened ⊢
      rw [opened]
      simp only [Outcome.result_ofExcept, Except.mapError_ok, Except.ok_bind]
      cases tree.child? "superclass" with
      | none =>
        simp only [Outcome.result_bind, Outcome.result_pure, Except.ok_bind]
        exact bind_congr closes
      | some superclass =>
        simp only [Outcome.result_bind, bind_assoc]
        exact bind_congr fun value => bind_congr fun changed => bind_congr closes

/-- A class or module is walked as its events tell. -/
theorem walks_unit (scene : Scene) (fuel : Nat) (scope : List String) (tree : Tree) :
    Walks (fun findings => (unitTree scene fuel scope tree findings).result)
      (unitEvents scene fuel scope tree) := by
  induction fuel generalizing scope tree with
  | zero => exact walks_error .tooDeep .tooDeep
  | succ fuel ih =>
    simp only [unitTree_result]
    refine walks_given _ fun name => ?_
    have body (known : Paths) : Walks
        (fun findings => (unitStatements scene (unitTree scene fuel (pathIn known scope name))
            (Draft.keyOf name scope) {} findings (statementsOf tree)).result >>= fun findings =>
          closeUnit (Draft.keyOf name scope) tree findings.draft >>= fun draft =>
            .ok { findings with draft })
        ((bodyEvents scene (unitEvents scene fuel (pathIn known scope name)) (Draft.keyOf name scope) {} []
          (statementsOf tree)).andThen
          (Eventful.of (·.map .call) (.ok (closingCalls (Draft.keyOf name scope) tree)))) :=
      (walks_body scene (ih (pathIn known scope name)) _ {} [] _).andThen
        (walks_change (emits_closeUnit _ tree) callsOf_call)
    have told (made : List Call) : callsOf [.opening (Draft.keyOf name scope) made] = made :=
      List.append_nil made
    have walks := walks_emitted (emits_openUnit scene scope tree name) told
      (fun known => known.put (Draft.keyOf name scope) (pathIn known scope name)) body
    simp only [bind_assoc, pure_bind] at walks
    exact walks

/-- What a statement outside all units makes of a draft. -/
def topChange (scene : Scene) (tree : Tree) (draft : Draft) : Except WalkFault Draft :=
  if tree.kind = "call" then do
    if (← (callName? scene tree).result) = some "require" then (requireCall scene draft tree).result
    else return draft
  else .ok draft

private theorem emits_top (scene : Scene) (tree : Tree) : Emits (topChange scene tree) (topCalls scene tree) := by
  unfold topChange topCalls
  split
  · refine Draft.emits_given _ fun name => ?_
    split
    · exact emits_requireCall scene tree
    · exact Draft.emits_nothing
  · exact Draft.emits_nothing

private theorem topStatement_result (scene : Scene) {tree : Tree} (outside : isUnit tree = false)
    (findings : Findings) :
    (topStatement scene findings tree).result =
      topChange scene tree findings.draft >>= fun draft => .ok { findings with draft } := by
  unfold topStatement topChange
  rw [if_neg (by simp [outside])]
  split
  · simp only [Outcome.result_bind, bind_assoc]
    refine bind_congr fun name => ?_
    split
    · rw [Outcome.result_bind]
      rfl
    · rfl
  · rfl

private theorem walks_top (scene : Scene) (tree : Tree) :
    Walks (fun findings => (topStatement scene findings tree).result) (topEvents scene tree) := by
  unfold topEvents
  split
  · next inside =>
    simp only [topStatement, if_pos inside]
    exact walks_unit scene _ [] tree
  · next outside =>
    simp only [topStatement_result scene (Bool.eq_false_iff.mpr outside)]
    exact walks_change (emits_top scene tree) callsOf_call

private theorem walks_all (scene : Scene) (trees : List Tree) :
    Walks (fun findings => (trees.foldlM (topStatement scene) findings).result)
      (eventsOf scene trees) := by
  induction trees with
  | nil => exact walks_nothing
  | cons tree rest ih =>
    simp only [List.foldlM_cons, Outcome.result_bind]
    exact (walks_top scene tree).andThen ih

/-- A tree is read into a draft exactly if the calls of its events can be run on the draft. -/
theorem walkInto_eq_ok_iff {scene : Scene} {draft next : Draft} :
    (walkInto scene draft).result = .ok next ↔
      ∃ events paths, eventsOf scene scene.root.namedChildren [] = .ok (events, paths) ∧
        draft.Runs (callsOf events) next := by
  unfold walkInto
  rw [Outcome.bind_result_eq_ok_iff]
  constructor
  · rintro ⟨⟨changed, paths⟩, walked, same⟩
    cases same
    obtain ⟨events, told, run⟩ := (walks_all scene _ ⟨draft, []⟩ ⟨changed, paths⟩).mp walked
    exact ⟨events, paths, told, run⟩
  · rintro ⟨events, paths, told, run⟩
    exact ⟨⟨next, paths⟩, (walks_all scene _ ⟨draft, []⟩ ⟨next, paths⟩).mpr ⟨events, told, run⟩, rfl⟩

end LiterateRuby.Ruby
