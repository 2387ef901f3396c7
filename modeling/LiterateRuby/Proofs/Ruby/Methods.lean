import LiterateRuby.Literate.Title
import LiterateRuby.Proofs.Draft.Methods
import LiterateRuby.Proofs.Ruby.Statement
import LiterateRuby.Render.Ruby

/-! # Written methods are read back

The statements that are written for a list of methods leave out the keywords that would change nothing, and
a singleton block between them does not change the visibility around it. A walk keeps a visibility of its own
for the unit and one for each block. `heads_statements` says that both count alike, and
`unitStatements_statements` that a walk over trees which say the statements of any list of methods finds one
method for each, in order and with its visibility. Names and bindings are those that the definitions have as
Ruby reads them (`Header`): they are the methods' own unless a definition says something else.
-/

namespace LiterateRuby

/-- What a definition and its place tell of a method. -/
structure MethodHead where
  name : String
  binding : Binding
  visibility : Visibility
  deriving DecidableEq, Repr

/-- The name, the binding and the visibility of a method. -/
def Method.head (method : Method) : MethodHead := ⟨method.name, method.binding, method.visibility⟩

namespace Render

/-! ## The header of a definition -/

/-- The header of a definition as Ruby takes it apart: the object, if the method is defined on one, and the
name. -/
structure Header where
  receiver : Option String
  name : String
  deriving DecidableEq, Repr

namespace Header

variable (header : Header)

/-- The header as it is usually written. -/
def text : String :=
  match header.receiver with
  | none => header.name
  | some receiver => receiver ++ "." ++ header.name

/-- How the defined method is bound outside singleton blocks. -/
def binding : Binding :=
  match header.receiver with
  | none => .onInstance
  | some receiver => if receiver = "self" then .onSelf else .onReceiver

/-- The name that the defined method keeps. -/
def methodName : String := if header.binding = .onReceiver then header.text else header.name

/-- The method that a definition adds under the active visibility. A definition on an object adds none in a
singleton block. -/
def head? (inBlock : Bool) (visibility : Visibility) : Option MethodHead :=
  if inBlock then
    if header.receiver.isNone then some ⟨header.name, .inSingleton, visibility⟩ else none
  else some ⟨header.methodName, header.binding, visibility⟩

/-- No name of a definition is empty or holds a dot. -/
def Proper : Prop := header.name ≠ "" ∧ Method.isDotted header.name = false

end Header

private theorem definedName_of_onSelf {method : Method} (own : method.binding = .onSelf) :
    definedName method = "self." ++ method.name := if_pos own

private theorem definedName_of_other {method : Method} (other : method.binding ≠ .onSelf) :
    definedName method = method.name := if_neg other

/-- Only methods of the unit or of another object are written with a dot. -/
theorem isDotted_definedName {method : Method} (sound : method.flaw? = none) :
    Method.isDotted (definedName method) = true ↔
      method.binding = .onSelf ∨ method.binding = .onReceiver := by
  obtain ⟨_, receiver, _⟩ := Method.flaw?_eq_none_iff.mp sound
  by_cases own : method.binding = .onSelf
  · rw [definedName_of_onSelf own]
    simp [Method.isDotted, own]
  · rw [definedName_of_other own, receiver]
    simp [own]

variable (header : String → Header)

/-- What is read of the definition of a method; `header` is how Ruby takes headers apart. -/
def readBack? (method : Method) : Option MethodHead :=
  (header (definedName method)).head? (method.binding == .inSingleton) method.visibility

/-- The definition of a method says what the method is: Ruby takes it apart as it was put together, and
`self` receives it only if it is a method of the unit. -/
def SaysItself (method : Method) : Prop :=
  (header (definedName method)).text = definedName method ∧
    ((header (definedName method)).receiver = some "self" → method.binding = .onSelf)

/-- The last dot of a text parts it in one way. -/
theorem receiver_unique {first second object name : String}
    (same : first ++ "." ++ object = second ++ "." ++ name) (plain : Method.isDotted object = false)
    (bare : Method.isDotted name = false) : first = second ∧ object = name := by
  have lists : first.toList ++ '.' :: object.toList = second.toList ++ '.' :: name.toList := by
    simpa using congrArg String.toList same
  have undotted {text : String} (plain : Method.isDotted text = false) : '.' ∉ text.toList := by
    simpa [Method.isDotted] using plain
  have alike : first.toList = second.toList ∧ object.toList = name.toList := by
    rcases List.append_eq_append_iff.mp lists with ⟨between, longer, rest⟩ | ⟨between, longer, rest⟩
    · cases between with
      | nil => simp_all
      | cons dot more =>
        refine absurd ?_ (undotted plain)
        rw [(List.cons.inj rest).2]
        simp
    · cases between with
      | nil => simp_all
      | cons dot more =>
        refine absurd ?_ (undotted bare)
        rw [(List.cons.inj rest).2]
        simp
  exact ⟨String.ext alike.1, String.ext alike.2⟩

variable {header}

/-- A method is read back as it is exactly if its definition says what it is. -/
theorem readBack?_eq_head_iff {method : Method} (sound : method.flaw? = none)
    (proper : (header (definedName method)).Proper) :
    readBack? header method = some method.head ↔ SaysItself header method := by
  have dotted := isDotted_definedName sound
  obtain ⟨_, receives, _⟩ := Method.flaw?_eq_none_iff.mp sound
  obtain ⟨_, plain⟩ := proper
  unfold readBack? SaysItself
  generalize header (definedName method) = read at *
  obtain ⟨object, name⟩ := read
  dsimp only at plain
  cases object with
  | none =>
    have undotted (same : name = definedName method) :
        ¬(method.binding = .onSelf ∨ method.binding = .onReceiver) := by
      rw [← dotted, ← same, plain]
      decide
    cases binding : method.binding <;>
      simp_all [Header.head?, Header.text, Header.binding, Header.methodName, Method.head, definedName]
  | some receiver =>
    have parted (same : receiver ++ "." ++ name = definedName method) :
        method.binding = .onSelf ∨ method.binding = .onReceiver := by
      rw [← dotted, ← same]
      simp [Method.isDotted]
    have own (own : method.binding = .onSelf) :
        receiver ++ "." ++ name = "self." ++ method.name ↔ receiver = "self" ∧ name = method.name := by
      have bare : Method.isDotted method.name = false := by simpa [own] using receives
      constructor
      · intro same
        have same : receiver ++ "." ++ name = "self" ++ "." ++ method.name := same
        exact receiver_unique same plain bare
      · rintro ⟨rfl, rfl⟩
        rfl
    by_cases self : receiver = "self" <;> cases binding : method.binding <;>
      simp_all [Header.head?, Header.text, Header.binding, Header.methodName, Method.head, definedName]

/-! ## The definitions among statements -/

def Step.defined? : Step → Option Method
  | .keyword _ => none
  | .definition method => some method

def Statement.defined : Statement → List Method
  | .step single => single.defined?.toList
  | .singleton steps => steps.filterMap Step.defined?

private theorem defined_stepsOf (active : Visibility) (method : Method) :
    (stepsOf active method).filterMap Step.defined? = [method] := by
  unfold stepsOf
  split <;> rfl

private theorem defined_steps (active : Visibility) (methods : List Method) :
    (steps active methods).filterMap Step.defined? = methods := by
  induction methods generalizing active with
  | nil => rfl
  | cons method rest ih =>
    rw [steps, List.filterMap_append, defined_stepsOf, ih]
    rfl

private theorem defined_closeBlock (block : List Method) :
    (closeBlock block).flatMap Statement.defined = block := by
  unfold closeBlock
  split
  · next empty => exact (List.isEmpty_iff.mp empty).symm
  · rw [List.flatMap_singleton]
    exact defined_steps .pub block

private theorem defined_statementsFrom (active : Visibility) (block methods : List Method) :
    (statementsFrom active block methods).flatMap Statement.defined = block ++ methods := by
  induction methods generalizing active block with
  | nil => rw [statementsFrom, defined_closeBlock, List.append_nil]
  | cons method rest ih =>
    rw [statementsFrom]
    split
    · rw [ih, List.append_assoc]
      rfl
    · have single : ((stepsOf active method).map Statement.step).flatMap Statement.defined = [method] := by
        rw [List.flatMap_map, ← defined_stepsOf active method, List.filterMap_eq_flatMap_toList]
        rfl
      rw [List.flatMap_append, List.flatMap_append, defined_closeBlock, single, ih]
      simp

/-- The statements of a list of methods define the methods in their order. -/
theorem defined_statements (methods : List Method) :
    (statements methods).flatMap Statement.defined = methods :=
  defined_statementsFrom .pub [] methods

/-! ## Counting along the statements -/

/-- The methods that were found, and the active visibility. -/
structure Tally where
  heads : List MethodHead := []
  visibility : Visibility := .pub

variable (header) in
/-- A keyword or a definition is read, in the body of a unit or in a singleton block. -/
def Tally.step (inBlock : Bool) (tally : Tally) : Step → Tally
  | .keyword visibility => { tally with visibility }
  | .definition method =>
    let found := (header (definedName method)).head? inBlock tally.visibility
    { tally with heads := tally.heads ++ found.toList }

variable (header) in
/-- A statement is read. A singleton block starts public and does not change the visibility around it. -/
def Tally.statement (tally : Tally) : Statement → Tally
  | .step step => tally.step header false step
  | .singleton steps =>
    { tally with heads := (steps.foldl (Tally.step header true) { tally with visibility := .pub }).heads }

/-- A definition is read under its method's visibility, whatever the active one is. -/
theorem foldl_stepsOf (inBlock : Bool) (tally : Tally) (method : Method) :
    (stepsOf tally.visibility method).foldl (Tally.step header inBlock) tally =
      ⟨tally.heads ++ ((header (definedName method)).head? inBlock method.visibility).toList,
        method.visibility⟩ := by
  unfold stepsOf
  split
  · next same =>
    rw [same]
    rfl
  · rfl

/-- All methods of a singleton block are read back. -/
theorem foldl_steps {block : List Method} (inside : ∀ method ∈ block, method.binding = .inSingleton)
    (tally : Tally) :
    ((steps tally.visibility block).foldl (Tally.step header true) tally).heads =
      tally.heads ++ block.filterMap (readBack? header) := by
  induction block generalizing tally with
  | nil => simp [steps]
  | cons method rest ih =>
    have own := inside method List.mem_cons_self
    have later := ih (fun other member => inside other (List.mem_cons_of_mem _ member))
      ⟨tally.heads ++ ((header (definedName method)).head? true method.visibility).toList,
        method.visibility⟩
    rw [steps, List.foldl_append, foldl_stepsOf, later]
    have read : readBack? header method = (header (definedName method)).head? true method.visibility := by
      rw [readBack?, own]
      rfl
    rw [List.filterMap_cons, read]
    cases (header (definedName method)).head? true method.visibility <;> simp

private theorem foldl_closeBlock {block : List Method} (inside : ∀ method ∈ block, method.binding = .inSingleton)
    (tally : Tally) :
    (closeBlock block).foldl (Tally.statement header) tally =
      ⟨tally.heads ++ block.filterMap (readBack? header), tally.visibility⟩ := by
  unfold closeBlock
  split
  · next empty =>
    rw [List.isEmpty_iff.mp empty]
    simp
  · rw [List.foldl_cons, List.foldl_nil, Tally.statement]
    exact congrArg (fun heads => (⟨heads, tally.visibility⟩ : Tally))
      (foldl_steps inside { tally with visibility := .pub })

/-- The statements of a list of methods give back all of them, those of the open block first. -/
theorem foldl_statementsFrom {block : List Method} (methods : List Method)
    (inside : ∀ method ∈ block, method.binding = .inSingleton) (tally : Tally) :
    ((statementsFrom tally.visibility block methods).foldl (Tally.statement header) tally).heads =
      tally.heads ++ (block ++ methods).filterMap (readBack? header) := by
  induction methods generalizing block tally with
  | nil => rw [statementsFrom, foldl_closeBlock inside, List.append_nil]
  | cons method rest ih =>
    rw [statementsFrom]
    split
    · next own =>
      have all : ∀ other ∈ block ++ [method], other.binding = .inSingleton := by
        intro other member
        rcases List.mem_append.mp member with earlier | last
        · exact inside other earlier
        · rwa [List.mem_singleton.mp last]
      rw [ih all tally, List.append_assoc]
      rfl
    · next other =>
      have single (tally : Tally) (steps : List Step) :
          (steps.map Statement.step).foldl (Tally.statement header) tally =
            steps.foldl (Tally.step header false) tally := by
        rw [List.foldl_map]
        rfl
      have read : readBack? header method =
          (header (definedName method)).head? false method.visibility := by
        rw [readBack?, beq_false_of_ne other]
      have before : tally.heads ++ (block ++ method :: rest).filterMap (readBack? header) =
          tally.heads ++ block.filterMap (readBack? header) ++ (readBack? header method).toList ++
            rest.filterMap (readBack? header) := by
        cases found : readBack? header method <;> simp [found]
      rw [before, read, List.foldl_append, List.foldl_append, foldl_closeBlock inside, single]
      generalize tally.heads ++ block.filterMap (readBack? header) = heads
      rw [foldl_stepsOf false ⟨heads, tally.visibility⟩]
      exact ih (by simp) ⟨heads ++ _, method.visibility⟩

/-- The statements of a list of methods give back each method as its definition is read, in order. -/
theorem heads_statements (header : String → Header) (methods : List Method) :
    ((statements methods).foldl (Tally.statement header) {}).heads =
      methods.filterMap (readBack? header) :=
  foldl_statementsFrom methods (List.forall_mem_nil _) {}

end Render

namespace Ruby

open Draft (Call)
open Render (Header Step Statement Tally readBack? definedName)

/-! ## Trees that say statements -/

/-- A tree is a definition with a header. Its parameters and its body can be read. -/
structure Defines (scene : Scene) (tree : Tree) (header : Header) : Prop where
  kind : tree.kind = if header.receiver.isNone then "method" else "singleton_method"
  name : partText scene.source (tree.child? "name") = .ok header.name
  object : ∀ receiver, header.receiver = some receiver → ∃ object, tree.child? "object" = some object ∧
    (object.kind = "self" ↔ receiver = "self") ∧ textOf scene.source object = .ok receiver
  parameters : ∃ parameters, (parametersOf scene (tree.child? "parameters")).result = .ok parameters ∧
    (parameters.filter (· == .forward)).length ≤ 1
  body : (bodyOf scene tree).result.isOk = true

/-- A tree says a keyword or a definition; `header` is how Ruby takes headers apart. -/
def SaysStep (scene : Scene) (header : String → Header) (tree : Tree) : Step → Prop
  | .keyword visibility =>
    tree.kind = "identifier" ∧ textOf scene.source tree = .ok visibility.keyword
  | .definition method => Defines scene tree (header (definedName method))

/-- A tree says a statement; comments may stand in a singleton block. -/
def Says (scene : Scene) (header : String → Header) (tree : Tree) : Statement → Prop
  | .step step => SaysStep scene header tree step
  | .singleton steps =>
    tree.kind = "singleton_class" ∧ (∃ value, tree.child? "value" = some value ∧ value.kind = "self") ∧
      List.Forall₂ (SaysStep scene header) ((statementsOf tree).filter (!·.isComment)) steps

variable {scene : Scene} {header : String → Header} {unit : String}

/-- A unit of a draft has the methods and the active visibility of a tally. -/
structure Tallied (unit : String) (draft : Draft) (tally : Tally) : Prop where
  present : ∃ held, draft.units.get? unit = some held
  heads : (draft.methodState unit).methods.map Method.head = tally.heads
  visibility : (draft.methodState unit).visibility = tally.visibility
  outside : (draft.methodState unit).inSingleton = false

/-- A call that a unit takes. -/
theorem exists_runs_of_update {draft : Draft} {held : UnitDraft} (call : Call)
    (present : draft.units.get? unit = some held) (addressed : call.unit? = some unit)
    (takes : (call.update? held).isSome = true) :
    ∃ next, draft.Runs [call] next ∧ (∃ held, next.units.get? unit = some held) ∧
      next.methodState unit = call.onMethods (draft.methodState unit) := by
  obtain ⟨after, updated⟩ := Option.isSome_iff_exists.mp takes
  obtain ⟨next, reply, success⟩ := Draft.perform_of_update addressed present updated
  obtain ⟨unit', effect, touched⟩ := Draft.perform_unit addressed success
  refine ⟨next, Draft.runs_singleton.mpr ⟨reply, success⟩, ⟨unit', touched.get?_self⟩, ?_⟩
  rw [Draft.methodState_of_perform success, if_pos addressed]

private theorem Tallied.setVisibility {draft : Draft} {tally : Tally} (tallied : Tallied unit draft tally)
    (visibility : Visibility) :
    ∃ next, draft.Runs [.setVisibility unit visibility] next ∧
      Tallied unit next { tally with visibility } := by
  obtain ⟨held, present⟩ := tallied.present
  obtain ⟨next, run, there, state⟩ :=
    exists_runs_of_update (.setVisibility unit visibility) present rfl rfl
  refine ⟨next, run, there, ?_, ?_, ?_⟩
  · rw [state]
    exact tallied.heads
  · rw [state]
    rfl
  · rw [state]
    exact tallied.outside

private theorem Tallied.addMethod {draft : Draft} {tally : Tally} (tallied : Tallied unit draft tally)
    {entry : Draft.MethodEntry} (flawless : entry.Flawless) :
    ∃ next, draft.Runs [.addMethod unit entry] next ∧
      Tallied unit next { tally with heads :=
        tally.heads ++ [⟨entry.name, entry.binding, entry.visibility.getD tally.visibility⟩] } := by
  obtain ⟨held, present⟩ := tallied.present
  have valid : (entry.inUnit held).checked = .ok (entry.inUnit held) :=
    Method.checked_eq_ok_iff.mpr ⟨(Draft.MethodEntry.flawless_iff held).mp flawless, rfl⟩
  obtain ⟨next, run, there, changed⟩ := exists_runs_of_update (.addMethod unit entry) present rfl
    (by simp [Call.update?, valid])
  refine ⟨next, run, there, ?_, ?_, ?_⟩
  · rw [changed, Call.onMethods, List.map_append, tallied.heads]
    simp [Draft.MethodEntry.taken, Method.head, tallied.outside, tallied.visibility]
  · rw [changed]
    exact tallied.visibility
  · rw [changed]
    exact tallied.outside

/-! ## Statements are read -/

private theorem result_ofTree_ok {α : Type} {result : Except TreeFault α} {value : α}
    (success : result = .ok value) :
    (ofTree result).result = .ok value := by
  rw [success]
  rfl

/-- The entry of a definition says what the header and the place of the definition say. -/
theorem Defines.entryOf {tree : Tree} {read : Header} (defines : Defines scene tree read)
    (context : MethodContext) (name : String) :
    ∃ entry, Ruby.entryOf scene tree context name = .ok entry ∧ entry.name = name ∧
      entry.binding = context.binding ∧ entry.visibility = context.visibility ∧
      (entry.parameters.filter (· == .forward)).length ≤ 1 := by
  obtain ⟨parameters, listed, few⟩ := defines.parameters
  obtain ⟨body, held⟩ := Except.exists_of_isOk defines.body
  refine ⟨⟨name, parameters, context.binding, body, context.visibility, context.prose⟩, ?_,
    rfl, rfl, rfl, few⟩
  rw [Ruby.entryOf, listed, held]
  rfl

/-- A definition in the body of a unit adds the method of its header. -/
theorem Defines.statementCalls {tree : Tree} {read : Header} (defines : Defines scene tree read)
    (proper : read.Proper) (unit : String) (prose : Option String) :
    ∃ entry, Ruby.statementCalls scene unit tree prose = .ok [.addMethod unit entry] ∧ entry.Flawless ∧
      entry.name = read.methodName ∧ entry.binding = read.binding ∧ entry.visibility = none := by
  obtain ⟨named, plain⟩ := proper
  have kind := defines.kind
  have name := result_ofTree_ok defines.name
  cases received : read.receiver with
  | none =>
    obtain ⟨entry, made, called, bound, open', few⟩ := defines.entryOf { prose } read.name
    rw [received] at kind
    have binding : read.binding = .onInstance := by rw [Header.binding, received]
    have full : read.methodName = read.name := by simp [Header.methodName, binding]
    refine ⟨entry, ?_, ⟨called ▸ named, ?_, few⟩, called.trans full.symm, bound.trans binding.symm, open'⟩
    · simp [Ruby.statementCalls, kind, methodCalls, name, made, pure, Except.pure]
    · rw [called, plain, bound]
      simp
  | some receiver =>
    obtain ⟨object, found, own, said⟩ := defines.object receiver received
    rw [received] at kind
    have said := result_ofTree_ok said
    by_cases self : receiver = "self"
    · obtain ⟨entry, made, called, bound, open', few⟩ := defines.entryOf { prose, binding := .onSelf } read.name
      have binding : read.binding = .onSelf := by rw [Header.binding, received, self]; rfl
      have full : read.methodName = read.name := by simp [Header.methodName, binding]
      refine ⟨entry, ?_, ⟨called ▸ named, ?_, few⟩, called.trans full.symm, bound.trans binding.symm, open'⟩
      · have dropped : (tree.child? "object").filter (·.kind != "self") = none := by
          simp [found, Option.filter, own.mpr self]
        simp [Ruby.statementCalls, kind, objectMethodCalls, name, made, dropped, pure, Except.pure]
      · rw [called, plain, bound]
        simp
    · obtain ⟨entry, made, called, bound, open', few⟩ :=
        defines.entryOf { prose, binding := .onReceiver } (receiver ++ "." ++ read.name)
      have binding : read.binding = .onReceiver := by rw [Header.binding, received]; exact if_neg self
      have full : read.methodName = receiver ++ "." ++ read.name := by
        rw [Header.methodName, if_pos binding, Header.text, received]
      refine ⟨entry, ?_, ⟨?_, ?_, few⟩, called.trans full.symm, bound.trans binding.symm, open'⟩
      · have other : object.kind ≠ "self" := fun same => self (own.mp same)
        have kept : (tree.child? "object").filter (·.kind != "self") = some object := by
          simp [found, Option.filter, other]
        simp [Ruby.statementCalls, kind, objectMethodCalls, name, made, kept, Scene.text, said, pure, Except.pure]
      · rw [called]
        simp
      · rw [called, bound]
        simp [Method.isDotted]

/-- A definition in a singleton block adds a method of the block, unless it is one on an object. -/
theorem Defines.singletonStatementCalls {tree : Tree} {read : Header} (defines : Defines scene tree read)
    (proper : read.Proper) (unit : String) (visibility : Visibility) :
    ∃ calls, Ruby.singletonStatementCalls scene unit visibility tree = .ok (calls, visibility) ∧
      ∀ draft heads active, Tallied unit draft ⟨heads, active⟩ → ∃ next, draft.Runs calls next ∧
        Tallied unit next ⟨heads ++ (read.head? true visibility).toList, active⟩ := by
  obtain ⟨named, plain⟩ := proper
  have kind := defines.kind
  have name := result_ofTree_ok defines.name
  cases received : read.receiver with
  | none =>
    obtain ⟨entry, made, called, bound, given, few⟩ :=
      defines.entryOf { binding := .inSingleton, visibility := some visibility } read.name
    rw [received] at kind
    refine ⟨[.addMethod unit entry], ?_, fun draft heads active tallied => ?_⟩
    · simp [Ruby.singletonStatementCalls, visibilityKeyword?, kind, methodCalls, name, made, pure, Except.pure]
    · have flawless : entry.Flawless := ⟨called ▸ named, by rw [called, plain, bound]; simp, few⟩
      obtain ⟨next, run, after⟩ := tallied.addMethod flawless
      refine ⟨next, run, ?_⟩
      simpa [Header.head?, received, called, bound, given] using after
  | some receiver =>
    rw [received] at kind
    refine ⟨[], ?_, fun draft heads active tallied => ⟨draft, rfl, ?_⟩⟩
    · simp [Ruby.singletonStatementCalls, visibilityKeyword?, kind, pure, Except.pure]
    · simpa [Header.head?, received] using tallied

/-- A keyword or a definition in a singleton block. -/
theorem SaysStep.singletonStatementCalls {tree : Tree} {step : Step} (told : SaysStep scene header tree step)
    (proper : ∀ method ∈ step.defined?, (header (definedName method)).Proper) (unit : String) (tally : Tally) :
    ∃ calls, Ruby.singletonStatementCalls scene unit tally.visibility tree =
        .ok (calls, (tally.step header true step).visibility) ∧
      ∀ draft active, Tallied unit draft ⟨tally.heads, active⟩ → ∃ next, draft.Runs calls next ∧
        Tallied unit next ⟨(tally.step header true step).heads, active⟩ := by
  cases step with
  | keyword visibility =>
    obtain ⟨kind, said⟩ := told
    have said := result_ofTree_ok said
    refine ⟨[], ?_, fun draft active tallied => ⟨draft, rfl, tallied⟩⟩
    simp [Ruby.singletonStatementCalls, visibilityKeyword?, kind, Scene.text, said,
      Visibility.ofKeyword?_keyword, Tally.step, pure, Except.pure]
  | definition method =>
    obtain ⟨calls, made, runs⟩ :=
      Defines.singletonStatementCalls told (proper method rfl) unit tally.visibility
    exact ⟨calls, made, fun draft active tallied => runs draft tally.heads active tallied⟩

/-- A comment in a singleton block makes no calls. -/
theorem singletonStatementCalls_comment {tree : Tree} (comment : tree.isComment = true)
    (visibility : Visibility) :
    Ruby.singletonStatementCalls scene unit visibility tree = .ok ([], visibility) := by
  have kind : tree.kind = "comment" := beq_iff_eq.mp comment
  simp [Ruby.singletonStatementCalls, visibilityKeyword?, kind, pure, Except.pure]

/-- The statements of a singleton block find what their steps count, whatever the active visibility of the
unit is. -/
theorem exists_singletonCalls {trees : List Tree} {steps : List Step}
    (told : List.Forall₂ (SaysStep scene header) (trees.filter (!·.isComment)) steps)
    (proper : ∀ method ∈ steps.filterMap Step.defined?, (header (definedName method)).Proper)
    (unit : String) (tally : Tally) :
    ∃ calls, singletonCalls scene unit tally.visibility trees = .ok calls ∧
      ∀ draft active, Tallied unit draft ⟨tally.heads, active⟩ → ∃ next, draft.Runs calls next ∧
        Tallied unit next ⟨(steps.foldl (Tally.step header true) tally).heads, active⟩ := by
  induction trees generalizing steps tally with
  | nil =>
    cases told
    exact ⟨[], rfl, fun draft active tallied => ⟨draft, rfl, tallied⟩⟩
  | cons tree rest ih =>
    cases comment : tree.isComment with
    | true =>
      rw [List.filter_cons_of_neg (by simp [comment])] at told
      obtain ⟨calls, made, runs⟩ := ih told proper tally
      refine ⟨calls, ?_, runs⟩
      rw [singletonCalls, singletonStatementCalls_comment comment, Except.ok_bind]
      dsimp only
      rw [made]
      rfl
    | false =>
      rw [List.filter_cons_of_pos (by simp [comment])] at told
      cases told with
      | @cons _ step _ more first later =>
        rw [← List.singleton_append, List.filterMap_append] at proper
        obtain ⟨early, made, begins⟩ := first.singletonStatementCalls
          (fun method member => proper method (List.mem_append_left _ (by simpa using member))) unit tally
        obtain ⟨late, found, ends⟩ := ih later
          (fun method member => proper method (List.mem_append_right _ member)) (tally.step header true step)
        refine ⟨early ++ late, ?_, fun draft active tallied => ?_⟩
        · rw [singletonCalls, made, Except.ok_bind]
          dsimp only
          rw [found]
          rfl
        · obtain ⟨middle, enter, between⟩ := begins draft active tallied
          obtain ⟨next, tail, after⟩ := ends middle active between
          exact ⟨next, Draft.runs_append.mpr ⟨middle, enter, tail⟩, after⟩

/-- The calls of a tree that says a statement find what the statement counts. -/
theorem Says.statementCalls {tree : Tree} {statement : Statement} (told : Says scene header tree statement)
    (proper : ∀ method ∈ statement.defined, (header (definedName method)).Proper) (prose : Option String)
    {draft : Draft} {tally : Tally} (tallied : Tallied unit draft tally) :
    ∃ calls next, Ruby.statementCalls scene unit tree prose = .ok calls ∧ draft.Runs calls next ∧
      Tallied unit next (tally.statement header statement) := by
  cases statement with
  | step step =>
    cases step with
    | keyword visibility =>
      obtain ⟨kind, said⟩ := told
      have said := result_ofTree_ok said
      obtain ⟨next, run, after⟩ := tallied.setVisibility visibility
      refine ⟨_, next, ?_, run, after⟩
      simp [Ruby.statementCalls, kind, Scene.text, said, Visibility.ofKeyword?_keyword, pure, Except.pure]
    | definition method =>
      have own : method ∈ (Statement.step (.definition method)).defined := by
        simp [Statement.defined, Step.defined?]
      obtain ⟨entry, made, flawless, called, bound, open'⟩ :=
        Defines.statementCalls told (proper method own) unit prose
      obtain ⟨next, run, after⟩ := tallied.addMethod flawless
      refine ⟨_, next, made, run, ?_⟩
      simpa [Tally.statement, Tally.step, Header.head?, called, bound, open'] using after
  | singleton steps =>
    obtain ⟨kind, ⟨value, found, self⟩, told⟩ := told
    obtain ⟨calls, made, runs⟩ :=
      exists_singletonCalls told proper unit { tally with visibility := .pub }
    obtain ⟨next, run, after⟩ := runs draft tally.visibility tallied
    refine ⟨calls, next, ?_, run, after⟩
    simpa [Ruby.statementCalls, kind, singletonClassCalls, found, self] using made

/-- A comment whose text can be read is added to the prose or left out. -/
theorem exists_add {tree : Tree} (legible : (scene.text tree).result.isOk = true) (run : ProseRun) :
    ∃ after, (run.add scene tree).result = .ok after := by
  unfold ProseRun.add
  split
  · obtain ⟨text, read⟩ := Except.exists_of_isOk legible
    rw [Outcome.result_bind, read]
    exact ⟨_, rfl⟩
  · exact ⟨run, rfl⟩

private theorem Says.isUnit {tree : Tree} {statement : Statement} (told : Says scene header tree statement) :
    isUnit tree = false := by
  have kinds : tree.kind = "identifier" ∨ tree.kind = "method" ∨ tree.kind = "singleton_method" ∨
      tree.kind = "singleton_class" := by
    cases statement with
    | singleton steps => simp [told.1]
    | step step =>
      cases step with
      | keyword visibility => simp [told.1]
      | definition method =>
        have kind := Defines.kind told
        split at kind <;> simp [kind]
  rcases kinds with kind | kind | kind | kind <;> simp [Ruby.isUnit, kind]

/-- A body whose trees say statements is read, and finds what the statements count. Comments may stand
between them. -/
theorem exists_unitStatements {trees : List Tree} {statements : List Statement}
    (nested : Tree → Findings → Walking Findings)
    (legible : ∀ tree ∈ trees, tree.isComment = true → (scene.text tree).result.isOk = true)
    (told : List.Forall₂ (Says scene header) (trees.filter (!·.isComment)) statements)
    (proper : ∀ method ∈ statements.flatMap Statement.defined, (header (definedName method)).Proper)
    (run : ProseRun) {findings : Findings} {tally : Tally} (tallied : Tallied unit findings.draft tally) :
    ∃ after, (unitStatements scene nested unit run findings trees).result = .ok after ∧
      Tallied unit after.draft (statements.foldl (Tally.statement header) tally) := by
  induction trees generalizing statements run findings tally with
  | nil =>
    cases told
    exact ⟨findings, rfl, tallied⟩
  | cons tree rest ih =>
    have later (other : Tree) (member : other ∈ rest) := legible other (List.mem_cons_of_mem _ member)
    cases comment : tree.isComment with
    | true =>
      rw [List.filter_cons_of_neg (by simp [comment])] at told
      obtain ⟨added, success⟩ := exists_add (legible tree List.mem_cons_self comment) run
      obtain ⟨after, read, found⟩ := ih later told proper added tallied
      refine ⟨after, ?_, found⟩
      rw [unitStatements, if_pos comment, Outcome.result_bind, success]
      exact read
    | false =>
      rw [List.filter_cons_of_pos (by simp [comment])] at told
      cases told with
      | @cons _ statement _ more first others =>
        rw [List.flatMap_cons] at proper
        obtain ⟨calls, next, made, ran, between⟩ := first.statementCalls
          (fun method member => proper method (List.mem_append_left _ member)) (run.proseFor scene tree) tallied
        have stated := (emits_unitStatement scene unit tree (run.proseFor scene tree) findings.draft next).mpr
          ⟨calls, made, ran⟩
        have between : Tallied unit ({ findings with draft := next } : Findings).draft
            (tally.statement header statement) := between
        obtain ⟨after, read, found⟩ := ih later others
          (fun method member => proper method (List.mem_append_right _ member)) {} between
        refine ⟨after, ?_, found⟩
        rw [unitStatements, if_neg (by simp [comment]), if_neg (by simp [first.isUnit])]
        simp only [Outcome.result_bind, stated, Except.ok_bind, Outcome.result_pure]
        exact read

/-- Trees that say the statements of any list of methods are read into a fresh unit, and one method is found
for each, in order and with its visibility. What is found are the methods themselves exactly if each
definition says what its method is; the others are found as Ruby reads their definitions. -/
theorem unitStatements_statements (nested : Tree → Findings → Walking Findings) {trees : List Tree}
    {methods : List Method} (sound : ∀ method ∈ methods, method.flaw? = none)
    (proper : ∀ method ∈ methods, (header (definedName method)).Proper)
    (legible : ∀ tree ∈ trees, tree.isComment = true → (scene.text tree).result.isOk = true)
    (told : List.Forall₂ (Says scene header) (trees.filter (!·.isComment)) (Render.statements methods))
    (run : ProseRun) {findings : Findings}
    (present : ∃ held, findings.draft.units.get? unit = some held)
    (fresh : findings.draft.methodState unit = {}) :
    ∃ after, (unitStatements scene nested unit run findings trees).result = .ok after ∧
      (after.draft.methodState unit).methods.map Method.head = methods.filterMap (readBack? header) ∧
      ((after.draft.methodState unit).methods.map Method.head = methods.map Method.head ↔
        ∀ method ∈ methods, Render.SaysItself header method) := by
  have tallied : Tallied unit findings.draft {} := ⟨present, by rw [fresh]; rfl, by rw [fresh], by rw [fresh]⟩
  have defined : (Render.statements methods).flatMap Statement.defined = methods :=
    Render.defined_statements methods
  obtain ⟨after, read, found⟩ :=
    exists_unitStatements nested legible told (by rwa [defined]) run tallied
  have heads := found.heads.trans (Render.heads_statements header methods)
  refine ⟨after, read, heads, ?_⟩
  rw [heads, List.filterMap_eq_map_iff_forall_eq_some]
  exact forall₂_congr fun method member => Render.readBack?_eq_head_iff (sound method member) (proper method member)

/-! ## Two units -/

/-- A header without blanks, with a variable for an object. -/
def plainHeader (shown : String) : Header :=
  if Method.isDotted shown then
    ⟨some (String.ofList (shown.toList.takeWhile (· != '.'))),
      String.ofList ((shown.toList.dropWhile (· != '.')).drop 1)⟩
  else ⟨none, shown⟩

/-- A draft with one class in which nothing was found. -/
def freshUnit : Findings where
  draft := (Draft.empty none).afterAll [.addUnit "A" .cls []]

def nameAt (start stop : Nat) : Tree :=
  .node { kind := "identifier", start, stop, field := some "name" } []

/-- Methods under two visibilities, one of them in a singleton block. -/
def mixedMethods : List Method :=
  [⟨"x", [], "", .priv, .onInstance, none⟩, ⟨"y", [], "", .pub, .inSingleton, none⟩,
    ⟨"z", [], "", .priv, .onSelf, none⟩]

/-- The definition in the singleton block. -/
def blockDefinition : Tree := .node { kind := "method", start := 36, stop := 47 } [nameAt 40 41]

/-- The lines of these methods: a keyword, a definition, a singleton block, a definition. -/
def mixedScene : Scene where
  source := .ofText (Render.textOf (Render.methodLines .default mixedMethods))
  root := .node { kind := "program", start := 0, stop := 68 }
    [.node { kind := "identifier", start := 0, stop := 7 } [],
      .node { kind := "method", start := 9, stop := 18 } [nameAt 13 14],
      .node { kind := "singleton_class", start := 20, stop := 51 }
        [.node { kind := "self", start := 29, stop := 33, field := some "value" } [],
          .node { kind := "body_statement", start := 36, stop := 47, field := some "body" } [blockDefinition]],
      .node { kind := "singleton_method", start := 53, stop := 67 }
        [.node { kind := "self", start := 57, stop := 61, field := some "object" } [], nameAt 62 63]]

private theorem says_mixed : List.Forall₂ (Says mixedScene plainHeader)
    (mixedScene.root.children.filter (!·.isComment)) (Render.statements mixedMethods) := by
  have statements : Render.statements mixedMethods =
      [.step (.keyword .priv), .step (.definition ⟨"x", [], "", .priv, .onInstance, none⟩),
        .singleton [.definition ⟨"y", [], "", .pub, .inSingleton, none⟩],
        .step (.definition ⟨"z", [], "", .priv, .onSelf, none⟩)] := by decide
  have block : (statementsOf (.node { kind := "singleton_class", start := 20, stop := 51 }
      [.node { kind := "self", start := 29, stop := 33, field := some "value" } [],
        .node { kind := "body_statement", start := 36, stop := 47, field := some "body" }
          [blockDefinition]])).filter (!·.isComment) = [blockDefinition] := by
    simp [statementsOf, Tree.child?, Tree.children, Tree.label, Tree.namedChildren, Tree.isComment, Tree.kind,
      blockDefinition]
  rw [statements]
  refine .cons ⟨rfl, by decide +kernel⟩ (.cons ?_ (.cons ⟨rfl, ⟨_, rfl, rfl⟩, ?_⟩ (.cons ?_ .nil)))
  · exact ⟨rfl, by decide +kernel, by rintro receiver ⟨⟩, ⟨[], by decide +kernel, by decide⟩, by decide +kernel⟩
  · rw [block]
    refine .cons ?_ .nil
    exact ⟨rfl, by decide +kernel, by rintro receiver ⟨⟩, ⟨[], by decide +kernel, by decide⟩, by decide +kernel⟩
  · refine ⟨rfl, by decide +kernel, ?_, ⟨[], by decide +kernel, by decide⟩, by decide +kernel⟩
    rintro receiver ⟨⟩
    exact ⟨_, rfl, by decide, by decide +kernel⟩

/-- All three methods are read back, the last one as private without a keyword of its own. -/
theorem unitStatements_statements_mixed :
    ∃ after, (unitStatements mixedScene (fun _ => pure) "A" {} freshUnit mixedScene.root.children).result =
        .ok after ∧
      (after.draft.methodState "A").methods.map Method.head =
        [⟨"x", .onInstance, .priv⟩, ⟨"y", .inSingleton, .pub⟩, ⟨"z", .onSelf, .priv⟩] := by
  have uncommented : ∀ tree ∈ mixedScene.root.children, tree.isComment = false := by
    simp [mixedScene, Tree.children, Tree.isComment, Tree.kind, Tree.label]
  have proper : ∀ method ∈ mixedMethods, (plainHeader (definedName method)).Proper := by
    unfold Header.Proper
    decide
  obtain ⟨after, read, _, same⟩ := unitStatements_statements (fun _ => pure) (by decide) proper
    (fun tree member comment => absurd comment (by simp [uncommented tree member])) says_mixed {}
    (show ∃ held, freshUnit.draft.units.get? "A" = some held from ⟨_, rfl⟩) rfl
  refine ⟨after, read, same.mpr ?_⟩
  unfold Render.SaysItself
  decide

/-- A method of another object whose name leaves a blank between `self` and the dot. -/
def spacedMethod : Method := ⟨"self .x", [], "", .pub, .onReceiver, none⟩

def spacedScene : Scene where
  source := .ofText (Render.textOf (Render.methodLines .default [spacedMethod]))
  root := .node { kind := "program", start := 0, stop := 16 }
    [.node { kind := "singleton_method", start := 0, stop := 15 }
      [.node { kind := "self", start := 4, stop := 8, field := some "object" } [], nameAt 10 11]]

/-- The method is what a heading says, and it is read back as a method of the unit itself. -/
theorem unitStatements_spacedMethod :
    (Literate.readTitle "self .x".toList).toOption = some ⟨spacedMethod.name, [], spacedMethod.binding⟩ ∧
      spacedMethod.flaw? = none ∧
      (unitStatements spacedScene (fun _ => pure) "A" {} freshUnit spacedScene.root.children).result.toOption.map
        (fun after => (after.draft.methodState "A").methods.map Method.head) = some [⟨"x", .onSelf, .pub⟩] ∧
      [spacedMethod].map Method.head ≠ [⟨"x", .onSelf, .pub⟩] := by
  refine ⟨by decide, by decide, by decide +kernel, by decide⟩

end Ruby

end LiterateRuby
