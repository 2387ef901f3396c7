import LiterateRuby.Proofs.Draft.Run

/-! # The methods of a unit while it is collected

Which methods a unit has, and how it takes the next one, is decided by a few calls only: those that
add methods, change their visibility, or set the active visibility and the singleton block. The other
calls leave this part of every unit alone, and each call leaves it alone in the units that it does not
address.
-/

namespace LiterateRuby

/-- The methods of a unit and what the next method takes from it. -/
@[ext] structure MethodState where
  methods : List Method := []
  visibility : Visibility := .pub
  inSingleton : Bool := false

def UnitDraft.methodState (unit : UnitDraft) : MethodState :=
  ⟨unit.methods, unit.visibility, unit.inSingleton⟩

namespace Draft

/-- The method that an entry makes in a unit of the given state. -/
def MethodEntry.taken (entry : MethodEntry) (state : MethodState) : Method where
  name := entry.name
  parameters := entry.parameters
  body := entry.body
  visibility := entry.visibility.getD state.visibility
  binding :=
    if state.inSingleton && entry.binding == .onInstance then .inSingleton else entry.binding
  prose := entry.prose

private theorem MethodEntry.inUnit_eq (entry : MethodEntry) (unit : UnitDraft) :
    entry.inUnit unit = entry.taken unit.methodState := rfl

/-- An entry whose method has no flaw, whichever unit takes it. -/
structure MethodEntry.Flawless (entry : MethodEntry) : Prop where
  named : entry.name ≠ ""
  receives : Method.isDotted entry.name = true ↔ entry.binding = .onReceiver
  forwards : (entry.parameters.filter (· == .forward)).length ≤ 1

/-- The unit does not matter: a singleton block takes instance methods only. -/
theorem MethodEntry.flawless_iff {entry : MethodEntry} (unit : UnitDraft) :
    entry.Flawless ↔ (entry.inUnit unit).flaw? = none := by
  have bound : (entry.inUnit unit).binding = .onReceiver ↔ entry.binding = .onReceiver := by
    unfold inUnit
    dsimp only
    split
    · next inside =>
      simp only [Bool.and_eq_true, beq_iff_eq] at inside
      simp [inside.2]
    · exact Iff.rfl
  rw [Method.flaw?_eq_none_iff, bound]
  exact ⟨fun flawless => ⟨flawless.named, flawless.receives, flawless.forwards⟩,
    fun ⟨named, receives, forwards⟩ => ⟨named, receives, forwards⟩⟩

/-- The method state of a unit; a unit that is not there has that of a new one. -/
def methodState (draft : Draft) (key : String) : MethodState :=
  ((draft.units.get? key).map UnitDraft.methodState).getD {}

/-- What a call makes of the method state of the unit that it addresses. -/
def Call.onMethods (state : MethodState) : Call → MethodState
  | .addMethod _ entry => { state with methods := state.methods ++ [entry.taken state] }
  | .setMethodVisibility _ name visibility binding =>
    let update (method : Method) : Method :=
      if isMethod name binding method then { method with visibility } else method
    { state with methods := state.methods.map update }
  | .setVisibility _ visibility => { state with visibility }
  | .enterSingleton _ => { state with visibility := .pub, inSingleton := true }
  | .exitSingleton _ => { state with inSingleton := false }
  | _ => state

/-- A call that bears neither on methods nor on how they are taken. -/
def Call.Quiet : Call → Prop
  | .addMethod _ _ | .setMethodVisibility _ _ _ _ | .setVisibility _ _ | .enterSingleton _
  | .exitSingleton _ => False
  | _ => True

private theorem Call.Quiet.onMethods {call : Call} (quiet : call.Quiet) (state : MethodState) :
    call.onMethods state = state := by
  cases call <;> first | rfl | cases quiet

private theorem methodState_of_fresh {call : Call} {unit : UnitDraft} (fresh : call.fresh? = some unit) :
    unit.methodState = {} ∧ call.Quiet := by
  cases Call.opens_of_fresh? fresh with
  | unit named => exact ⟨rfl, trivial⟩
  | holder => exact ⟨rfl, trivial⟩

private theorem methodState_of_update {call : Call} {unit next : UnitDraft}
    (updated : call.update? unit = some next) :
    next.methodState = call.onMethods unit.methodState := by
  cases Call.updates_of_update? updated with
  | method flawless =>
    rw [Call.onMethods, ← MethodEntry.inUnit_eq]
    rfl
  | _ => rfl

/-- A call that is not refused changes the method state of the unit that it addresses, and of no
other. -/
theorem methodState_of_perform {draft next : Draft} {call : Call} {reply : Reply}
    (success : (draft.perform call).result = .ok (next, reply)) (key : String) :
    next.methodState key =
      if call.unit? = some key then call.onMethods (draft.methodState key)
      else draft.methodState key := by
  split
  · next addressed =>
    obtain ⟨unit, effect, touched⟩ := perform_unit addressed success
    unfold methodState
    rw [touched.get?_self]
    cases present : draft.units.get? key with
    | some held =>
      rw [present] at effect
      exact methodState_of_update effect
    | none =>
      rw [present] at effect
      obtain ⟨fresh, quiet⟩ := methodState_of_fresh effect
      simp only [Option.map_some, Option.getD_some, Option.map_none, Option.getD_none]
      rw [fresh, quiet.onMethods]
  · next elsewhere =>
    unfold methodState
    rw [get?_of_perform success elsewhere]

/-- What calls make of the method state of a unit. -/
def methodsAfter (key : String) (state : MethodState) (calls : List Call) : MethodState :=
  calls.foldl (fun state call => if call.unit? = some key then call.onMethods state else state) state

@[simp] theorem methodsAfter_nil (key : String) (state : MethodState) :
    methodsAfter key state [] = state := rfl

theorem methodsAfter_cons (key : String) (state : MethodState) (call : Call) (rest : List Call) :
    methodsAfter key state (call :: rest) =
      methodsAfter key (if call.unit? = some key then call.onMethods state else state) rest := rfl

theorem methodsAfter_cons_of_unit {call : Call} {key : String} (addressed : call.unit? = some key)
    (state : MethodState) (rest : List Call) :
    methodsAfter key state (call :: rest) = methodsAfter key (call.onMethods state) rest := by
  rw [methodsAfter_cons, if_pos addressed]

theorem methodsAfter_append (key : String) (state : MethodState) (first second : List Call) :
    methodsAfter key state (first ++ second) = methodsAfter key (methodsAfter key state first) second :=
  List.foldl_append

/-- Quiet calls, and calls to other units, leave the method state of a unit as it is. -/
theorem methodsAfter_of_quiet {key : String} {calls : List Call}
    (quiet : ∀ call ∈ calls, call.unit? = some key → call.Quiet) (state : MethodState) :
    methodsAfter key state calls = state := by
  induction calls with
  | nil => rfl
  | cons call rest ih =>
    have same : (if call.unit? = some key then call.onMethods state else state) = state := by
      split
      · next addressed => exact (quiet call List.mem_cons_self addressed).onMethods state
      · rfl
    rw [methodsAfter_cons, same]
    exact ih fun other member => quiet other (List.mem_cons_of_mem _ member)

/-- Calls to other units leave the method state of a unit as it is. -/
theorem methodsAfter_of_elsewhere {key : String} {calls : List Call}
    (elsewhere : ∀ call ∈ calls, call.unit? ≠ some key) (state : MethodState) :
    methodsAfter key state calls = state :=
  methodsAfter_of_quiet (fun call member addressed => absurd addressed (elsewhere call member)) state

theorem Runs.methodState {draft next : Draft} {calls : List Call} (run : draft.Runs calls next)
    (key : String) : next.methodState key = methodsAfter key (draft.methodState key) calls := by
  induction calls generalizing draft with
  | nil =>
    cases run
    rfl
  | cons call rest ih =>
    obtain ⟨middle, reply, success, tail⟩ := run
    rw [ih tail, methodState_of_perform success key, methodsAfter_cons]

/-- The methods of a unit of a document are those that its draft collected. -/
theorem Keyed.methods_of_document {draft : Draft} (keyed : draft.Keyed) {unit : RubyUnit}
    (member : unit ∈ draft.document.units) :
    unit.methods = (draft.methodState unit.qualifiedName).methods := by
  obtain ⟨⟨key, held⟩, present, rfl⟩ := List.mem_map.mp member
  have found : draft.units.get? key = some held := Entries.get?_of_mem keyed.distinct present
  obtain ⟨nature, same⟩ := held.frozen_eq
  unfold methodState
  rw [held.frozen_qualifiedName, keyed.named key held found, found, same]
  rfl

theorem Sound.methods_of_document {draft : Draft} (sound : draft.Sound) {unit : RubyUnit}
    (member : unit ∈ draft.document.units) :
    unit.methods = (draft.methodState unit.qualifiedName).methods :=
  sound.keyed.methods_of_document member

end Draft

end LiterateRuby
