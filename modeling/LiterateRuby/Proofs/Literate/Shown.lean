import LiterateRuby.Proofs.Draft.Sound
import LiterateRuby.Proofs.Forest
import LiterateRuby.Proofs.Literate.Units

/-! # What shows of a unit that was written and reread

A reread unit differs from the unit in the values of its literals, in where its attributes are declared and
in the prose of its methods. None of this shows in Ruby code, as long as no prose does
(`shownUnit?_finalDraft`).
-/

namespace LiterateRuby.Render

/-- Methods that are defined alike, in the same places, have the same lines. -/
structure DefinedAlike (settings : RenderSettings) (change : Method → Method) (methods : List Method) : Prop where
  visibility : ∀ method, (change method).visibility = method.visibility
  binding : ∀ method, (change method).binding = method.binding
  lines : ∀ method ∈ methods, definitionLines settings (change method) = definitionLines settings method

variable {settings : RenderSettings} {change : Method → Method}

private theorem DefinedAlike.cons {method : Method} {rest : List Method}
    (alike : DefinedAlike settings change (method :: rest)) : DefinedAlike settings change rest where
  visibility := alike.visibility
  binding := alike.binding
  lines other member := alike.lines other (List.mem_cons_of_mem _ member)

private theorem stepLines_stepsOf {method : Method} {rest : List Method}
    (alike : DefinedAlike settings change (method :: rest)) (active : Visibility) :
    (stepsOf active (change method)).map (stepLines settings) =
      (stepsOf active method).map (stepLines settings) := by
  have lines := alike.lines method List.mem_cons_self
  unfold stepsOf
  rw [alike.visibility]
  split <;> simp [stepLines, lines]

private theorem stepLines_steps {methods : List Method} (alike : DefinedAlike settings change methods)
    (active : Visibility) :
    (steps active (methods.map change)).map (stepLines settings) =
      (steps active methods).map (stepLines settings) := by
  induction methods generalizing active with
  | nil => rfl
  | cons method rest ih =>
    rw [List.map_cons, steps, steps, List.map_append, List.map_append, stepLines_stepsOf alike,
      alike.visibility, ih alike.cons]

private theorem statementLines_closeBlock {block : List Method} (alike : DefinedAlike settings change block) :
    (closeBlock (block.map change)).map (statementLines settings) =
      (closeBlock block).map (statementLines settings) := by
  unfold closeBlock
  rw [List.isEmpty_map]
  split
  · rfl
  · simp only [List.map_cons, List.map_nil, statementLines, stepLines_steps alike]

private theorem statementLines_statementsFrom {block methods : List Method}
    (alike : DefinedAlike settings change (block ++ methods)) (active : Visibility) :
    (statementsFrom active (block.map change) (methods.map change)).map (statementLines settings) =
      (statementsFrom active block methods).map (statementLines settings) := by
  have parts {first second : List Method} (both : DefinedAlike settings change (first ++ second)) :
      DefinedAlike settings change first ∧ DefinedAlike settings change second :=
    ⟨⟨both.visibility, both.binding, fun other member => both.lines other (List.mem_append_left _ member)⟩,
      ⟨both.visibility, both.binding, fun other member => both.lines other (List.mem_append_right _ member)⟩⟩
  induction methods generalizing block active with
  | nil => exact statementLines_closeBlock (parts alike).1
  | cons method rest ih =>
    rw [List.map_cons, statementsFrom, statementsFrom, alike.binding, alike.visibility]
    split
    · have longer : DefinedAlike settings change ((block ++ [method]) ++ rest) := by
        rwa [List.append_assoc, List.singleton_append]
      have inside := ih longer active
      rwa [List.map_append] at inside
    · have here := stepLines_stepsOf (parts alike).2 active
      have later := @ih [] (parts alike).2.cons method.visibility
      have closed := statementLines_closeBlock (parts alike).1
      simp only [List.map_nil] at later
      have steps (list : List Step) :
          (list.map Statement.step).map (statementLines settings) = list.map (stepLines settings) := by
        rw [List.map_map]
        rfl
      simp only [List.map_append, closed, steps, here, later]

private theorem methodLines_map {methods : List Method} (alike : DefinedAlike settings change methods) :
    methodLines settings (methods.map change) = methodLines settings methods :=
  congrArg joinSections (@statementLines_statementsFrom settings change [] methods alike .pub)

end LiterateRuby.Render

namespace LiterateRuby.Literate

/-- A method whose prose does not show is defined alike without it. -/
theorem definitionLines_rereadMethod {settings : RenderSettings} {method : Method}
    (silent : Render.proseLines settings method = []) :
    Render.definitionLines settings (rereadMethod method) = Render.definitionLines settings method := by
  have empty : Render.proseLines settings (rereadMethod method) = [] := rfl
  rw [Render.definitionLines, Render.definitionLines, empty, silent]
  rfl

private theorem methodLines_reread {settings : RenderSettings} {methods : List Method}
    (silent : ∀ method ∈ methods, Render.proseLines settings method = []) :
    Render.methodLines settings (methods.map rereadMethod) = Render.methodLines settings methods :=
  Render.methodLines_map ⟨fun _ => rfl, fun _ => rfl, fun method member =>
    definitionLines_rereadMethod (silent method member)⟩

/-- The values of plain entries are written as they were. -/
theorem assignments_rereadEntries {values : Entries String Constant}
    (plain : ∀ entry ∈ values, PlainValue entry.2) :
    Render.assignments (rereadEntries values) = Render.assignments values := by
  unfold Render.assignments rereadEntries
  induction values with
  | nil => rfl
  | cons entry rest ih =>
    have source := (plain entry List.mem_cons_self).source
    have later := ih fun other member => plain other (List.mem_cons_of_mem _ member)
    rw [List.map_cons, List.mapM_cons, List.mapM_cons, later]
    simp only [Render.literal, source.again, source.written]

/-- A reread unit is no mere namespace. -/
theorem frozen_finalDraft (unit : RubyUnit) : (finalDraft unit).frozen = (finalDraft unit).plain := by
  have ordinary : (finalDraft unit).isNamespace = false := by
    simp [UnitDraft.isNamespace, finalDraft, withMethods, describedUnit, openedUnit]
  rw [UnitDraft.frozen, ordinary]
  rfl

theorem path_finalDraft (unit : RubyUnit) : (finalDraft unit).frozen.path = unit.path := by
  rw [frozen_finalDraft]
  rfl

private theorem isNamespaceOnly_finalDraft (unit : RubyUnit) :
    (finalDraft unit).frozen.isNamespaceOnly = false := by
  rw [frozen_finalDraft, UnitDraft.isNamespaceOnly_plain]

private theorem header_finalDraft (unit : RubyUnit) :
    Render.header (finalDraft unit).frozen = Render.header unit := by
  have kind : (finalDraft unit).plain.kind = unit.kind := UnitDraft.kind_plain _
  have superclass : (finalDraft unit).plain.superclass? = unit.superclass? := by
    have same : (finalDraft unit).kind = unit.kind := rfl
    have given : (finalDraft unit).superclass = unit.superclass? := rfl
    rw [UnitDraft.superclass?_plain, same, given]
    unfold RubyUnit.superclass? RubyUnit.kind
    cases unit.nature <;> simp
  have name : (finalDraft unit).plain.name = unit.name := rfl
  rw [frozen_finalDraft, Render.header, Render.header, kind, superclass, name]

private theorem attributeLines_finalDraft (unit : RubyUnit) :
    Render.attributeLines (finalDraft unit).plain = Render.attributeLines unit := by
  rw [attributeLines_eq unit]
  rfl

private theorem unitSections_finalDraft {settings : RenderSettings} {unit : RubyUnit} (fair : FairUnit unit)
    (silent : ∀ method ∈ unit.methods, Render.proseLines settings method = []) :
    Render.unitSections settings (finalDraft unit).frozen = Render.unitSections settings unit := by
  have classVariables : Render.assignments (finalDraft unit).plain.classVariables =
      Render.assignments unit.classVariables :=
    assignments_rereadEntries fun entry member => (fair.declarations.classVariables entry member).2
  have constants : Render.assignments (finalDraft unit).plain.constants = Render.assignments unit.constants :=
    assignments_rereadEntries fun entry member => (fair.declarations.constants entry member).2
  have methods : Render.methodLines settings (finalDraft unit).plain.methods =
      Render.methodLines settings unit.methods := methodLines_reread silent
  rw [frozen_finalDraft, Render.unitSections, Render.unitSections, classVariables, constants,
    attributeLines_finalDraft, methods]
  rfl

/-- A unit shows as it did before it was written and reread. -/
theorem shownUnit?_finalDraft {settings : RenderSettings} {unit : RubyUnit} (fair : FairUnit unit)
    (real : unit.isNamespaceOnly = false)
    (silent : ∀ method ∈ unit.methods, Render.proseLines settings method = []) :
    Render.shownUnit? settings (some (finalDraft unit).frozen) = Render.shownUnit? settings (some unit) := by
  rw [Render.shownUnit?_of_real (isNamespaceOnly_finalDraft unit), Render.shownUnit?_of_real real,
    header_finalDraft, unitSections_finalDraft fair silent]

/-- A holder shows as a path without a unit does. -/
theorem shownUnit?_holderDraft (settings : RenderSettings) (path : List String) :
    Render.shownUnit? settings (some (holderDraft path).frozen) = none :=
  Render.shownUnit?_of_mere rfl

theorem path_holderDraft {path : List String} (given : path ≠ []) : (holderDraft path).frozen.path = path := by
  rw [UnitDraft.frozen_path, holderDraft, List.getLast?_eq_some_getLast given, Option.getD_some]
  exact List.dropLast_append_getLast given

end LiterateRuby.Literate
