import LiterateRuby.Proofs.Draft.Assigned
import LiterateRuby.Proofs.Literate.Described
import LiterateRuby.Proofs.Literate.Legible

/-! # The values that a text gives

Front matter assigns values to the unit that a text opens first. After it come the lines under the headings that
open no method: each assigns a value to the unit that is open there, or none. `read_values` says that the units
of a text hold just these values.
-/

namespace LiterateRuby.Literate

open Draft (Assignment Call assigned)
open FrontMatter (entriesIn)

/-! ## Lines -/

/-- The assignment that a line under a heading makes. -/
def assignmentIn? (line : List Char) : Option Assignment :=
  match readDeclaration (Text.trim line) with
  | .constant name value => (readValue value).toOption.map (⟨false, name, ·⟩)
  | .classVariable name value => (readValue value).toOption.map (⟨true, name, ·⟩)
  | _ => none

/-- A class variable that a line declares is named with its two signs. -/
theorem signed_of_readDeclaration {line value : List Char} {name : String}
    (read : readDeclaration line = .classVariable name value) :
    String.ofList ('@' :: '@' :: Draft.bareVariable name) = name := by
  have named := readDeclaration_named line
  rw [read] at named
  obtain ⟨bare, rfl, given, word⟩ := named
  rw [bareVariable_of_named given word, ← String.toList_inj]
  simp

private theorem assigned_declarationCalls {unit : String} {line : List Char} {calls : List Call}
    (success : declarationCalls unit line = .ok calls) (key : String) :
    assigned key calls = if unit = key then (assignmentIn? line).toList else [] := by
  have makes := declarationCalls_eq_ok_iff.mp success
  unfold assignmentIn?
  generalize read : readDeclaration (Text.trim line) = declaration at makes
  cases makes with
  | nothing | unnamed | attributes => simp [assigned, Call.assigned?]
  | constant known =>
    by_cases same : unit = key <;> simp [assigned, Call.unit?, Call.assigned?, same, Except.toOption, known]
  | classVariable known =>
    by_cases same : unit = key <;>
      simp [assigned, Call.unit?, Call.assigned?, same, Except.toOption, known, signed_of_readDeclaration read]

def assignmentsOf (lines : List (List Char)) : List Assignment :=
  (Text.lines (Text.trim (Text.unlines lines))).filterMap assignmentIn?

private theorem assigned_mapM {unit : String} {lines : List (List Char)} {parts : List (List Call)}
    (success : lines.mapM (declarationCalls unit) = .ok parts) (key : String) :
    assigned key parts.flatten = if unit = key then lines.filterMap assignmentIn? else [] := by
  induction lines generalizing parts with
  | nil =>
    cases success
    simp
  | cons line rest ih =>
    rw [List.mapM_cons] at success
    obtain ⟨first, made, success⟩ := Except.bind_eq_ok_iff.mp success
    obtain ⟨others, more, same⟩ := Except.bind_eq_ok_iff.mp success
    cases same
    rw [List.flatten_cons, Draft.assigned_append, assigned_declarationCalls made, ih more]
    split_ifs
    · cases assigns : assignmentIn? line <;> simp [assigns]
    · rfl

/-- The text under a heading that opens no method assigns what its lines do. -/
theorem assigned_textCalls {unit : String} {method : Option MethodTitle} {lines : List (List Char)}
    {calls : List Call} (success : textCalls unit method lines = .ok calls) (key : String) :
    assigned key calls = if unit = key ∧ method = none then assignmentsOf lines else [] := by
  cases method with
  | some title =>
    cases success
    rw [if_neg (by simp)]
    exact Draft.assigned_of_elsewhere (by simp [Call.assigned?])
  | none =>
    rw [textCalls_none] at success
    obtain ⟨parts, made, same⟩ := Except.bind_eq_ok_iff.mp success
    cases same
    rw [assigned_mapM made]
    simp [assignmentsOf]

/-! ## Sections -/

def Section.assignments (part : Section) : List Assignment :=
  if part.heading.isMethod then [] else assignmentsOf part.text

/-- What the texts of sections assign in a unit, with the unit that is open before them. -/
def assignmentsIn (key : String) : Option String → List Section → List Assignment
  | _, [] => []
  | unit, part :: rest =>
    let inside := if part.heading.level = 1 then some (unitKey part.heading.title) else unit
    (if inside = some key then part.assignments else []) ++ assignmentsIn key inside rest

/-- What front matter assigns in the unit that a text opens first. -/
def frontAssignments (metadata : Metadata) : List Assignment :=
  (entriesIn (metadata.get? "constants")).map (fun (name, value) => ⟨false, name.text, value.toConstant⟩) ++
    (entriesIn (metadata.get? "class_variables")).map fun (name, value) =>
      ⟨true, String.ofList ('@' :: '@' :: Draft.bareVariable name.text), value.toConstant⟩

private theorem assigned_frontMatterCalls (metadata : Metadata) (kind : RubyUnit.Kind) (unit key : String) :
    assigned key (frontMatterCalls metadata kind unit) = if unit = key then frontAssignments metadata else [] := by
  have own := frontMatterCalls_changes metadata kind unit
  split_ifs with same
  · subst same
    have all : (frontMatterCalls metadata kind unit).filter (·.unit? == some unit) =
        frontMatterCalls metadata kind unit :=
      List.filter_eq_self.mpr fun call made => by simp [(own call made).addressed]
    have superclass : (superclassCalls metadata kind unit).filterMap Call.assigned? = [] := by
      unfold superclassCalls
      split <;> rfl
    rw [assigned, all]
    simp only [frontMatterCalls, List.filterMap_append, superclass, declaredCall, List.filterMap_map,
      List.filterMap_cons, List.filterMap_nil, Call.assigned?, frontAssignments, Function.comp_def,
      List.filterMap_eq_map', List.nil_append, List.filterMap_none, List.append_nil]
  · exact Draft.assigned_of_elsewhere fun call made address =>
      absurd (Option.some.inj ((own call made).addressed.symm.trans address)) same

private theorem assigned_unitCalls {metadata : Metadata} {opened : Bool} {title : List Char} {calls : List Call}
    (success : unitCalls metadata opened title = .ok calls) (key : String) :
    assigned key calls = if opened = false ∧ unitKey title = key then frontAssignments metadata else [] := by
  obtain ⟨kind, -, -, -, rfl⟩ := unitCalls_eq_ok_iff.mp success
  have opening : assigned key (openingCalls kind (unitPath title)) = [] := by
    refine Draft.assigned_of_elsewhere fun call made _ => ?_
    cases openingCalls_open kind _ call made <;> rfl
  rw [Draft.assigned_append, opening, List.nil_append]
  cases opened with
  | true => rfl
  | false => simpa using assigned_frontMatterCalls metadata kind (unitKey title) key

/-- What sections assign in a unit: what front matter does, if they open the unit first, and what their texts
do. -/
theorem assigned_sectionsCalls {metadata : Metadata} {unit : Option String} {parts : List Section}
    {calls : List Call} (success : sectionsCalls metadata unit parts = .ok calls)
    (levels : ∀ part ∈ parts, part.heading.level = 1 ∨ part.heading.level = 2 ∨ part.heading.level = 3)
    (key : String) :
    assigned key calls =
      (if unit = none ∧ (stretches parts).2.head?.map Stretch.unit = some key then frontAssignments metadata
        else []) ++ assignmentsIn key unit parts := by
  induction parts generalizing unit calls with
  | nil =>
    cases success
    simp [stretches, assignmentsIn]
  | cons part rest ih =>
    obtain ⟨opening, inside, method, content, later, opens, holds, follows, rfl⟩ :=
      sectionsCalls_cons_eq_ok_iff.mp success
    obtain ⟨level, levels⟩ := List.forall_mem_cons.mp levels
    have behind : assigned key later = assignmentsIn key (some inside) rest := by simpa using ih follows levels
    rw [Draft.assigned_append, Draft.assigned_append, assigned_textCalls holds, behind, assignmentsIn]
    rcases headingCalls_cases opens with ⟨first, rfl, rfl, made⟩ | ⟨inner, rfl, moves⟩
    · have plain : part.heading.isMethod = false := by simp [Heading.isMethod, first]
      rw [assigned_unitCalls made, stretches, if_pos first, if_pos first]
      simp [Stretch.unit, Section.assignments, plain]
    · obtain ⟨-, within⟩ := (headingCalls_within_iff inner).mp opens
      have same := within.isMethod (level.resolve_left inner)
      have empty : assigned key opening = [] :=
        Draft.assigned_of_elsewhere fun call made _ => by cases moves call made <;> rfl
      rw [empty, if_neg inner]
      cases method <;> simp [same, Section.assignments]

/-! ## Whole texts -/

/-- A unit of a document holds what calls assign in it. -/
theorem values_of_calls {filename : Option String} {calls : List Call} {draft : Draft}
    (run : (Draft.empty filename).Runs calls draft) (holds : Draft.Holds calls draft) {unit : RubyUnit}
    (member : unit ∈ draft.document.units) (shared : Bool) :
    unit.values shared = Assignment.values shared (assigned unit.qualifiedName calls) := by
  obtain ⟨⟨key, held⟩, present, rfl⟩ := List.mem_map.mp member
  have found := Entries.get?_of_mem holds.sound.distinct present
  have keyed : held.frozen.qualifiedName = key :=
    held.frozen_qualifiedName.trans (holds.sound.units key held found).keyed
  have values := run.values found
  obtain ⟨nature, same⟩ := held.frozen_eq
  rw [keyed, same]
  cases shared with
  | false => exact values.constants
  | true => exact values.classVariables

/-- The units of a text hold what front matter and the lines under headings assign in them. -/
theorem read_values [DataFormat] {filename : Option String} {text : String} {document : Document}
    (success : (read filename text).result = .ok document) :
    ∃ front parts, FrontMatter.split (Text.trim (Text.unixLines text.toList)) = .ok front ∧
      textSections? filename front = some parts ∧ ∀ unit ∈ document.units, ∀ shared,
        unit.values shared = Assignment.values shared
          ((if (stretches parts).2.head?.map Stretch.unit = some unit.qualifiedName then
            frontAssignments front.metadata else []) ++ assignmentsIn unit.qualifiedName none parts) := by
  obtain ⟨calls, draft, made, run, holds, rfl⟩ := read_eq_ok_iff.mp success
  obtain ⟨front, parts, rest, splits, cut, -, follows, rfl⟩ := callsOf_cases made
  refine ⟨front, parts, splits, cut, fun unit member shared => ?_⟩
  have document : assigned unit.qualifiedName (documentCalls front.metadata) = [] :=
    Draft.assigned_of_elsewhere fun call made _ =>
      Call.assigned?_of_document (documentCalls_unaddressed _ call made)
  rw [values_of_calls run holds member, Draft.assigned_append, document,
    assigned_sectionsCalls follows (levels_of_textSections? cut)]
  simp

end LiterateRuby.Literate
