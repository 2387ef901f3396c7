import LiterateRuby.Proofs.Draft.Assigned
import LiterateRuby.Proofs.Draft.Methods
import LiterateRuby.Proofs.Ruby.Statement

/-! # Bare visibility keywords

A statement of a unit body sets the active visibility of its unit if it is a visibility keyword alone,
and no other statement does (`statementCalls_cases`). What stands in singleton blocks, and keywords with
arguments, leave the active visibility alone.
-/

namespace LiterateRuby

namespace Draft

/-- A call that opens no unit, marks none as holding others and sets no active visibility. -/
def Call.Steady : Call → Prop
  | .addUnit _ _ _ | .ensureHolder _ _ | .markNamespaceOnly _ | .setVisibility _ _ | .enterSingleton _
  | .exitSingleton _ => False
  | _ => True

theorem Call.Steady.opened? {call : Call} (steady : call.Steady) : call.opened? = none := by
  cases call <;> first | rfl | cases steady

private theorem Call.Steady.visibility {call : Call} (steady : call.Steady) (state : MethodState) :
    (call.onMethods state).visibility = state.visibility := by
  cases call <;> first | rfl | cases steady

theorem methodsAfter_of_steady {key : String} {calls : List Call}
    (steady : ∀ call ∈ calls, call.Steady) (state : MethodState) :
    (methodsAfter key state calls).visibility = state.visibility := by
  induction calls generalizing state with
  | nil => rfl
  | cons call rest ih =>
    rw [methodsAfter_cons, ih fun other member => steady other (List.mem_cons_of_mem _ member)]
    split
    · exact (steady call List.mem_cons_self).visibility state
    · rfl

end Draft

namespace Ruby

open Draft (Call methodsAfter)

/-- The visibility that a statement sets if it is a visibility keyword and nothing else. -/
def bareKeyword? (scene : Scene) (statement : Tree) : Option Visibility :=
  if statement.kind = "call" && !(argumentsOf statement).isEmpty then none
  else (visibilityKeyword? scene statement).result.toOption.join

/-- The visibility that the last bare keyword among statements sets. -/
def lastKeyword? (scene : Scene) (statements : List Tree) : Option Visibility :=
  (statements.filterMap (bareKeyword? scene)).getLast?

@[simp] theorem lastKeyword?_nil (scene : Scene) : lastKeyword? scene [] = none := rfl

theorem lastKeyword?_append (scene : Scene) (first second : List Tree) :
    lastKeyword? scene (first ++ second) =
      (lastKeyword? scene second).or (lastKeyword? scene first) := by
  unfold lastKeyword?
  rw [List.filterMap_append, List.getLast?_append]

theorem lastKeyword?_singleton (scene : Scene) (statement : Tree) :
    lastKeyword? scene [statement] = bareKeyword? scene statement := by
  unfold lastKeyword?
  cases keyword : bareKeyword? scene statement <;> simp [keyword]

/-- Calls that belong to a unit that is open and set no active visibility. -/
def Minor (unit : String) (calls : List Call) : Prop :=
  ∀ call ∈ calls, (∀ key, call.unit? = some key → key = unit) ∧ call.Steady

/-- Such calls that assign nothing either. -/
def Light (unit : String) (calls : List Call) : Prop :=
  Minor unit calls ∧ ∀ call ∈ calls, call.assigned? = none

private theorem light_nil (unit : String) : Light unit [] := by
  constructor <;> simp [Minor]

private theorem minor_singleton {unit : String} {call : Call} (own : ∀ key, call.unit? = some key → key = unit)
    (steady : call.Steady) : Minor unit [call] := by
  intro other member
  rw [List.mem_singleton.mp member]
  exact ⟨own, steady⟩

private theorem light_singleton {unit : String} {call : Call} (own : ∀ key, call.unit? = some key → key = unit)
    (steady : call.Steady) (assigns : call.assigned? = none) : Light unit [call] := by
  refine ⟨minor_singleton own steady, fun other member => ?_⟩
  rwa [List.mem_singleton.mp member]

private theorem light_flatten {unit : String} {parts : List (List Call)}
    (each : ∀ part ∈ parts, Light unit part) : Light unit parts.flatten := by
  constructor
  all_goals
    intro call member
    obtain ⟨part, listed, inside⟩ := List.mem_flatten.mp member
  · exact (each part listed).1 call inside
  · exact (each part listed).2 call inside

/-- The calls that are made, if they can be made out, are light ones of a unit. -/
def MakesLight (unit : String) (calls : Except WalkFault (List Call)) : Prop :=
  ∀ made, calls = .ok made → Light unit made

private theorem makesLight_ok {unit : String} {calls : List Call} (light : Light unit calls) :
    MakesLight unit (.ok calls) := by
  rintro _ ⟨⟩
  exact light

private theorem makesLight_nothing (unit : String) : MakesLight unit (.ok []) := makesLight_ok (light_nil unit)

private theorem makesLight_given {unit : String} {α : Type} (first : Except WalkFault α)
    {calls : α → Except WalkFault (List Call)}
    (each : ∀ value, first = .ok value → MakesLight unit (calls value)) :
    MakesLight unit (first >>= calls) := by
  intro made success
  obtain ⟨value, known, remains⟩ := Except.bind_eq_ok_iff.mp success
  exact each value known made remains

private theorem makesLight_flatten {unit : String} {calls : Tree → Except WalkFault (List Call)}
    (each : ∀ item, MakesLight unit (calls item)) (items : List Tree) :
    MakesLight unit (do return (← items.mapM calls).flatten) := by
  refine makesLight_given _ fun parts success => makesLight_ok (light_flatten fun part member => ?_)
  obtain ⟨item, _, made⟩ := Except.exists_of_mem_mapM success member
  exact each item part made

variable (scene : Scene) (unit : String)

private theorem makesLight_entry (tree : Tree) (context : MethodContext) (name : String) :
    MakesLight unit (do return [.addMethod unit (← entryOf scene tree context name)]) := by
  refine makesLight_given _ fun entry _ => makesLight_ok (light_singleton ?_ trivial rfl)
  rintro key ⟨⟩
  rfl

private theorem makesLight_method (tree : Tree) (context : MethodContext) :
    MakesLight unit (methodCalls scene unit tree context) :=
  makesLight_given _ fun name _ => makesLight_entry scene unit tree context name

private theorem makesLight_objectMethod (tree : Tree) (context : MethodContext) :
    MakesLight unit (objectMethodCalls scene unit tree context) := by
  refine makesLight_given _ fun name _ => ?_
  cases (tree.child? "object").filter (·.kind != "self") with
  | none => exact makesLight_entry scene unit tree _ name
  | some object => exact makesLight_given _ fun receiver _ => makesLight_entry scene unit tree _ _

private theorem makesLight_retarget (visibility : Visibility) (binding : Binding) (argument : Tree) :
    MakesLight unit (retargetCalls scene unit visibility binding argument) := by
  refine makesLight_given _ fun name _ => ?_
  cases name with
  | none => exact makesLight_nothing unit
  | some name =>
    refine makesLight_ok (light_singleton ?_ trivial rfl)
    rintro key ⟨⟩
    rfl

private theorem makesLight_argument (visibility : Visibility) (prose : Option String) (argument : Tree) :
    MakesLight unit (argumentCalls scene unit visibility prose argument) := by
  unfold argumentCalls
  split
  · exact makesLight_method scene unit argument _
  · exact makesLight_objectMethod scene unit argument _
  · exact makesLight_retarget scene unit visibility .onInstance argument

private theorem makesLight_require (tree : Tree) : MakesLight unit (requireCalls scene tree) := by
  refine makesLight_given _ fun name _ => ?_
  cases name.filter (· != "") with
  | none => exact makesLight_given _ fun _ _ => makesLight_nothing unit
  | some name =>
    have own : ∀ key, (Call.addRequire name).unit? = some key → key = unit := by
      rintro key ⟨⟩
    exact makesLight_ok (light_singleton own trivial rfl)

private theorem makesLight_alias (tree : Tree) : MakesLight unit (aliasCalls scene unit tree) := by
  unfold aliasCalls
  split
  · refine makesLight_given _ fun new _ => makesLight_given _ fun old _ => ?_
    refine makesLight_ok (light_singleton ?_ trivial rfl)
    rintro key ⟨⟩
    rfl
  · exact makesLight_nothing unit

private theorem makesLight_singletonArgument (keyword : Visibility) (argument : Tree) :
    MakesLight unit (singletonArgumentCalls scene unit keyword argument) := by
  unfold singletonArgumentCalls
  split
  · exact makesLight_method scene unit argument _
  · exact makesLight_retarget scene unit keyword .inSingleton argument

private theorem light_of_singletonStatement {visibility after : Visibility} {statement : Tree}
    {calls : List Call}
    (success : singletonStatementCalls scene unit visibility statement = .ok (calls, after)) :
    Light unit calls := by
  obtain ⟨keyword, _, remains⟩ := Except.bind_eq_ok_iff.mp success
  dsimp only at remains
  split at remains
  · obtain ⟨made, told, same⟩ := Except.bind_eq_ok_iff.mp remains
    cases same
    exact makesLight_method scene unit statement _ calls told
  · next keyword _ _ =>
    obtain ⟨made, told, same⟩ := Except.bind_eq_ok_iff.mp remains
    cases same
    have light := makesLight_flatten (makesLight_singletonArgument scene unit keyword)
      (if statement.kind = "call" then argumentsOf statement else [])
    exact light made.flatten (by rw [told]; rfl)
  · cases remains
    exact light_nil unit

private theorem makesLight_singleton (visibility : Visibility) (statements : List Tree) :
    MakesLight unit (singletonCalls scene unit visibility statements) := by
  induction statements generalizing visibility with
  | nil => exact makesLight_nothing unit
  | cons statement rest ih =>
    refine makesLight_given _ fun ⟨calls, after⟩ first => makesLight_given _ fun more second => ?_
    have begins := light_of_singletonStatement scene unit first
    have continues := ih after more second
    have both : Light unit [calls, more].flatten := light_flatten (by simp [begins, continues])
    rw [List.flatten_cons, List.flatten_cons, List.flatten_nil, List.append_nil] at both
    exact makesLight_ok both

private theorem makesLight_singletonClass (tree : Tree) :
    MakesLight unit (singletonClassCalls scene unit tree) := by
  unfold singletonClassCalls
  split
  · split
    · exact makesLight_singleton scene unit .pub _
    · exact makesLight_nothing unit
  · exact makesLight_nothing unit

/-- An assignment belongs to its unit, too, and sets no active visibility. -/
theorem minor_assignment {tree : Tree} {calls : List Call}
    (success : assignmentCalls scene unit tree = .ok calls) : Minor unit calls := by
  unfold assignmentCalls at success
  split at success
  · obtain ⟨name, _, remains⟩ := Except.bind_eq_ok_iff.mp success
    split at remains
    · obtain ⟨value, _, same⟩ := Except.bind_eq_ok_iff.mp remains
      cases same
      refine minor_singleton ?_ trivial
      rintro key ⟨⟩
      rfl
    · obtain ⟨value, _, same⟩ := Except.bind_eq_ok_iff.mp remains
      cases same
      refine minor_singleton ?_ trivial
      rintro key ⟨⟩
      rfl
    · cases remains
      exact (light_nil unit).1
  · cases success
    exact (light_nil unit).1

theorem ofKeyword?_getD (name : Option String) :
    Visibility.ofKeyword? (name.getD "") = name.bind Visibility.ofKeyword? := by
  cases name with
  | none => decide
  | some word => rfl

private theorem bareKeyword?_of_arguments {tree : Tree} (called : tree.kind = "call")
    (arguments : (argumentsOf tree).isEmpty = false) : bareKeyword? scene tree = none := by
  simp [bareKeyword?, called, arguments]

private theorem bareKeyword?_of_receiver {tree : Tree} (called : tree.kind = "call")
    (receiver : (tree.child? "receiver").isSome = true) : bareKeyword? scene tree = none := by
  unfold bareKeyword? visibilityKeyword?
  simp [called, receiver, Except.toOption]

private theorem bareKeyword?_of_name {tree : Tree} (called : tree.kind = "call")
    (direct : (tree.child? "receiver").isSome = false) (alone : (argumentsOf tree).isEmpty = true)
    {name : Option String} (named : (callName? scene tree).result = .ok name) :
    bareKeyword? scene tree = name.bind Visibility.ofKeyword? := by
  unfold bareKeyword? visibilityKeyword?
  simp [called, direct, alone, named, Except.toOption]

private theorem makesLight_names (make : String → Call) (own : ∀ name, (make name).unit? = some unit)
    (steady : ∀ name, (make name).Steady) (assigns : ∀ name, (make name).assigned? = none)
    (names : List String) :
    MakesLight unit (.ok (names.map make)) := by
  refine makesLight_ok ⟨fun call member => ?_, fun call member => ?_⟩
  · obtain ⟨name, _, rfl⟩ := List.mem_map.mp member
    refine ⟨fun key addressed => ?_, steady name⟩
    rw [own name] at addressed
    exact (Option.some.inj addressed).symm
  · obtain ⟨name, _, rfl⟩ := List.mem_map.mp member
    exact assigns name

private theorem makesLight_other (tree : Tree) (name : String) :
    MakesLight unit (otherCalls scene unit tree name) := by
  unfold otherCalls
  split
  · refine makesLight_given _ fun names _ => ?_
    dsimp only
    split
    · exact makesLight_nothing unit
    · refine makesLight_ok (light_singleton ?_ trivial rfl)
      rintro key ⟨⟩
      rfl
  · exact makesLight_require scene unit tree
  · refine makesLight_given _ fun names _ => ?_
    exact makesLight_names unit (.addInclude unit) (fun _ => rfl) (fun _ => trivial) (fun _ => rfl) names
  · refine makesLight_given _ fun names _ => ?_
    exact makesLight_names unit (.addExtend unit) (fun _ => rfl) (fun _ => trivial) (fun _ => rfl) names
  · refine makesLight_given _ fun names _ => ?_
    split
    · split
      · exact makesLight_nothing unit
      · refine makesLight_ok (light_singleton ?_ trivial rfl)
        rintro key ⟨⟩
        rfl
    · exact makesLight_nothing unit
  · exact makesLight_nothing unit

/-- What a call among the statements of a unit does to the active visibility. -/
theorem callCalls_cases {tree : Tree} {prose : Option String} {calls : List Call}
    (called : tree.kind = "call") (success : callCalls scene unit tree prose = .ok calls) :
    (∃ visibility, bareKeyword? scene tree = some visibility ∧
        calls = [.setVisibility unit visibility]) ∨
      (bareKeyword? scene tree = none ∧ Light unit calls) := by
  unfold callCalls at success
  split at success
  · next receiver =>
    obtain ⟨_, _, same⟩ := Except.bind_eq_ok_iff.mp success
    cases same
    exact .inr ⟨bareKeyword?_of_receiver scene called receiver, light_nil unit⟩
  · next direct =>
    have direct : (tree.child? "receiver").isSome = false := Bool.eq_false_iff.mpr direct
    obtain ⟨name, named, remains⟩ := Except.bind_eq_ok_iff.mp success
    have word := ofKeyword?_getD name
    dsimp only at remains
    cases keyword : Visibility.ofKeyword? (name.getD "") with
    | some visibility =>
      rw [keyword] at remains word
      dsimp only at remains
      unfold visibilityCalls at remains
      split at remains
      · next alone =>
        cases remains
        exact .inl ⟨visibility, (bareKeyword?_of_name scene called direct alone named).trans word.symm, rfl⟩
      · next arguments =>
        refine .inr ⟨bareKeyword?_of_arguments scene called (Bool.eq_false_iff.mpr arguments), ?_⟩
        exact makesLight_flatten (makesLight_argument scene unit visibility prose) _ calls remains
    | none =>
      rw [keyword] at remains word
      have bare : bareKeyword? scene tree = none := by
        cases alone : (argumentsOf tree).isEmpty with
        | true => exact (bareKeyword?_of_name scene called direct alone named).trans word.symm
        | false => exact bareKeyword?_of_arguments scene called alone
      exact .inr ⟨bare, makesLight_other scene unit tree _ calls remains⟩

theorem bareKeyword?_of_kind {statement : Tree} (word : statement.kind ≠ "identifier")
    (call : statement.kind ≠ "call") : bareKeyword? scene statement = none := by
  simp [bareKeyword?, visibilityKeyword?, call, Except.toOption]

/-- What a statement of a unit does to the active visibility, if it is no assignment: a bare keyword sets it,
and any other statement leaves it alone. -/
theorem statementCalls_light {tree : Tree} {prose : Option String} {calls : List Call}
    (other : tree.kind ≠ "assignment") (success : statementCalls scene unit tree prose = .ok calls) :
    (∃ visibility, bareKeyword? scene tree = some visibility ∧
        calls = [.setVisibility unit visibility]) ∨
      (bareKeyword? scene tree = none ∧ Light unit calls) := by
  have silent := @bareKeyword?_of_kind scene tree
  unfold statementCalls at success
  split at success
  · next same =>
    exact .inr ⟨silent (by simp [same]) (by simp [same]), makesLight_method scene unit tree _ calls success⟩
  · next same =>
    exact .inr ⟨silent (by simp [same]) (by simp [same]),
      makesLight_objectMethod scene unit tree _ calls success⟩
  · next same =>
    exact .inr ⟨silent (by simp [same]) (by simp [same]),
      makesLight_singletonClass scene unit tree calls success⟩
  · next same =>
    obtain ⟨word, read, remains⟩ := Except.bind_eq_ok_iff.mp success
    have bare : bareKeyword? scene tree = Visibility.ofKeyword? word := by
      simp [bareKeyword?, visibilityKeyword?, same, read, Except.toOption]
    rw [bare]
    cases keyword : Visibility.ofKeyword? word with
    | some visibility =>
      rw [keyword] at remains
      cases remains
      exact .inl ⟨visibility, rfl, rfl⟩
    | none =>
      rw [keyword] at remains
      cases remains
      exact .inr ⟨rfl, light_nil unit⟩
  · next same => exact callCalls_cases scene unit same success
  · next same =>
    exact .inr ⟨silent (by simp [same]) (by simp [same]), makesLight_alias scene unit tree calls success⟩
  · next same => exact absurd same other
  · next notIdentifier notCall _ _ =>
    cases success
    exact .inr ⟨silent notIdentifier notCall, light_nil unit⟩

/-- What a statement of a unit does to the active visibility: a bare keyword sets it, and any other
statement leaves it alone. -/
theorem statementCalls_cases {tree : Tree} {prose : Option String} {calls : List Call}
    (success : statementCalls scene unit tree prose = .ok calls) :
    (∃ visibility, bareKeyword? scene tree = some visibility ∧
        calls = [.setVisibility unit visibility]) ∨
      (bareKeyword? scene tree = none ∧ Minor unit calls) := by
  by_cases assigns : tree.kind = "assignment"
  · have calls : assignmentCalls scene unit tree = .ok calls := by rwa [statementCalls, assigns] at success
    exact .inr ⟨bareKeyword?_of_kind scene (by simp [assigns]) (by simp [assigns]),
      minor_assignment scene unit calls⟩
  · refine (statementCalls_light scene unit assigns success).imp_right fun ⟨bare, light⟩ => ⟨bare, light.1⟩

end Ruby

end LiterateRuby
