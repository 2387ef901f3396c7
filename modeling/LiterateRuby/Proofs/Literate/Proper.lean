import LiterateRuby.Proofs.Datum
import LiterateRuby.Proofs.Literate.Calls

/-! # What a text names

The calls of a text name every unit, every segment and every superclass, so a document can always be
built from what a text collects.
-/

namespace LiterateRuby.Literate

open Draft (Call)

/-- A call that lacks neither a name nor metadata. -/
def Complete (call : Call) : Prop := call.Proper ∧ call.Given

/-- The parts of a path without empty segments name units. -/
theorem properName_of_unitPath {title : List Char} {name : String} {scope : List String}
    (whole : "" ∉ unitPath title) (member : name ∈ unitPath title)
    (inside : ∀ segment ∈ scope, segment ∈ unitPath title) : ProperName name scope := by
  have named : name ≠ "" := fun empty => whole (empty ▸ member)
  refine ⟨named, ?_, fun empty => whole (inside "" empty)⟩
  obtain ⟨piece, segment, rfl⟩ := List.mem_map.mp member
  rw [trimmedText, Text.scopeSegments_trim segment, List.mem_singleton]
  exact Ne.symm named

private theorem OpensPath.complete {kind : RubyUnit.Kind} {title : List Char} {call : Call}
    (opens : OpensPath kind (unitPath title) call) (whole : "" ∉ unitPath title) : Complete call := by
  cases opens with
  | @holder outer inner name within =>
    have parts : ∀ segment ∈ outer ++ name :: inner, segment ∈ unitPath title :=
      fun segment member => List.mem_of_mem_dropLast (within ▸ member)
    exact ⟨properName_of_unitPath whole (parts name (by simp)) fun segment above =>
      parts segment (List.mem_append_left _ above), trivial⟩
  | unit =>
    refine ⟨properName_of_unitPath whole ?_ fun segment => List.mem_of_mem_dropLast, trivial⟩
    rw [List.getLast?_eq_some_getLast (unitPath_ne_nil title), Option.getD_some]
    exact List.getLast_mem _
  | visibility | leave => exact ⟨trivial, trivial⟩

private theorem Introduces.complete {metadata : Metadata} {unit : String} {call : Call}
    (introduces : Introduces metadata unit call) : Complete call := by
  cases introduces with
  | superclass given => exact ⟨Datum.text_ne_empty given, trivial⟩
  | _ => exact ⟨trivial, trivial⟩

private theorem unitCalls_complete {metadata : Metadata} {opened : Bool} {title : List Char} {calls : List Call}
    (success : unitCalls metadata opened title = .ok calls) : ∀ call ∈ calls, Complete call := by
  obtain ⟨whole, kind, each⟩ := unitCalls_cases success
  intro call made
  rcases each call made with opening | ⟨_, front⟩
  · exact opening.complete whole
  · exact front.complete

private theorem textCalls_complete {unit : String} {method : Option MethodTitle} {lines : List (List Char)}
    {calls : List Call} (success : textCalls unit method lines = .ok calls) :
    ∀ call ∈ calls, Complete call := by
  rcases textCalls_cases success with ⟨title, rfl, rfl⟩ | ⟨rfl, declares⟩
  · simp [Complete, Call.Proper, Call.Given]
  · intro call made
    cases declares call made <;> exact ⟨trivial, trivial⟩

private theorem headingCalls_complete {metadata : Metadata} {unit : Option String} {heading : Heading}
    {calls : List Call} {inside : String} {method : Option MethodTitle}
    (success : headingCalls metadata unit heading = .ok (calls, inside, method)) :
    ∀ call ∈ calls, Complete call := by
  rcases headingCalls_cases success with ⟨_, _, _, opens⟩ | ⟨_, _, moves⟩
  · exact unitCalls_complete opens
  · intro call made
    cases moves call made <;> exact ⟨trivial, trivial⟩

private theorem sectionsCalls_complete {metadata : Metadata} {unit : Option String} {parts : List Section}
    {calls : List Call} (success : sectionsCalls metadata unit parts = .ok calls) :
    ∀ call ∈ calls, Complete call :=
  forall_sectionsCalls headingCalls_complete textCalls_complete success

private theorem documentCalls_complete (metadata : Metadata) : ∀ call ∈ documentCalls metadata, Complete call := by
  intro call made
  simp only [documentCalls, List.mem_cons, List.mem_map] at made
  rcases made with rfl | ⟨name, _, rfl⟩
  · exact ⟨trivial, rfl⟩
  · exact ⟨trivial, trivial⟩

/-- The calls of a text give all names that a document needs. -/
theorem callsOf_complete [DataFormat] {filename : Option String} {text : String} {calls : List Call}
    (success : callsOf filename text = .ok calls) : ∀ call ∈ calls, Complete call := by
  obtain ⟨_, front, _, _, parts, _, rest, follows, rfl⟩ := callsOf_eq_ok_iff.mp success
  intro call made
  rcases List.mem_append.mp made with first | made
  · exact documentCalls_complete _ call first
  · exact sectionsCalls_complete follows call made

/-- What a text reads to is the document that its calls collect on an empty draft. -/
theorem read_eq_ok_iff [DataFormat] {filename : Option String} {text : String} {document : Document} :
    (read filename text).result = .ok document ↔
      ∃ calls draft, callsOf filename text = .ok calls ∧ (Draft.empty filename).Runs calls draft ∧
        Draft.Holds calls draft ∧ document = draft.document := by
  have held {calls : List Call} {draft : Draft} (made : callsOf filename text = .ok calls)
      (run : (Draft.empty filename).Runs calls draft) : Draft.Holds calls draft := by
    have holds := run.holds (Draft.holds_empty filename) fun call member =>
      (callsOf_complete made call member).1
    rwa [List.nil_append] at holds
  unfold read
  simp only [Outcome.bind_result_eq_ok_iff, readInto_eq_ok_iff]
  constructor
  · rintro ⟨draft, ⟨calls, made, run⟩, built⟩
    have holds := held made run
    simp only [call, Outcome.result_ofExcept, holds.build_eq, Except.mapError_ok, Except.ok.injEq] at built
    exact ⟨calls, draft, made, run, holds, built.symm⟩
  · rintro ⟨calls, draft, made, run, holds, rfl⟩
    refine ⟨draft, ⟨calls, made, run⟩, ?_⟩
    simp only [call, Outcome.result_ofExcept, holds.build_eq, Except.mapError_ok]

end LiterateRuby.Literate
