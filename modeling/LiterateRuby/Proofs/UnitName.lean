import LiterateRuby.Proofs.Literate.FirstUnit
import LiterateRuby.Proofs.Namespace
import LiterateRuby.Proofs.Ruby.Makes

/-! # What unit names start with

Both readers trim every part of the name that a unit is opened by. A unit in another one starts with the
name of the outermost unit around it, and that unit stands in the document too. So no qualified name of a
document starts with a blank (`Document.Returned.unindented`).
-/

namespace LiterateRuby

namespace Text

def Unindented (cs : List Char) : Prop := ∀ c, cs.head? = some c → isBlank c = false

theorem unindented_trim (cs : List Char) : Unindented (trim cs) := by
  intro c first
  have start : (trimStart cs).head? = some c := by
    obtain ⟨rest, whole⟩ := trimEnd_starts (trimStart cs)
    rw [← whole, List.head?_append]
    exact Option.or_eq_some_iff.mpr (.inl first)
  have shown := List.head?_dropWhile_not isBlank cs
  rwa [← trimStart, start] at shown

private theorem unindented_joinScope {path : List String}
    (first : ∀ segment, path.head? = some segment → Unindented segment.toList) :
    Unindented (joinScope path).toList := by
  cases path with
  | nil => exact fun c found => by cases found
  | cons segment rest =>
    have start := first segment rfl
    cases rest with
    | nil => exact start
    | cons next more =>
      have whole : (joinScope (segment :: next :: more)).toList =
          segment.toList ++ (':' :: ':' :: (joinScope (next :: more)).toList) := by
        simp [joinScope]
      rw [whole]
      intro c head
      rw [List.head?_append] at head
      rcases Option.or_eq_some_iff.mp head with own | ⟨_, mark⟩
      · exact start c own
      · cases mark
        decide

end Text

open Draft (Call slotRun? slotRun?_append slotRun?_cons_of_unit slotRun?_cons_of_ne)
open Text (Unindented)

/-! ## The name that a unit is opened by -/

namespace Draft

/-- The name that a call opens a unit by. -/
def Call.name? : Call → Option String
  | .addUnit name _ _ => some name
  | .ensureHolder name _ => some name
  | _ => none

private theorem Call.fresh?_named {call : Call} {unit : UnitDraft} (fresh : call.fresh? = some unit) :
    call.name? = some unit.name := by
  cases Call.opens_of_fresh? fresh <;> rfl

private theorem Call.name?_of_unopened {call : Call} (unopened : call.opened? = none) : call.name? = none := by
  cases call <;> first | rfl | cases unopened

/-- A unit has the name that it was first opened by. -/
theorem slotRun?_named {key : String} {calls : List Call} {unit : UnitDraft}
    (success : slotRun? key none calls = some (some unit)) : ∃ call ∈ calls, call.name? = some unit.name := by
  refine slotRun?_preserves (P := fun unit => ∃ call ∈ calls, call.name? = some unit.name) (by simp)
    (fun call member _ made fresh => ⟨call, member, Call.fresh?_named fresh⟩)
    (fun call _ _ old made named updated => ?_) success
  rwa [(Call.update?_place updated).1]

/-- Every unit of a document has a name that a call opened it by. -/
theorem Runs.named {filename : Option String} {calls : List Call} {draft : Draft}
    (run : (empty filename).Runs calls draft) (distinct : draft.units.keys.Nodup) :
    ∀ unit ∈ draft.document.units, ∃ call ∈ calls, call.name? = some unit.name := by
  intro unit member
  obtain ⟨⟨key, held⟩, listed, rfl⟩ := List.mem_map.mp member
  have found := Entries.get?_of_mem distinct listed
  obtain ⟨nature, same⟩ := held.frozen_eq
  rw [same]
  exact slotRun?_named ((run.get? key).trans (congrArg some found))

end Draft

/-! ## Titles -/

namespace Literate

private theorem unindented_unitPath {title : List Char} {segment : String} (member : segment ∈ unitPath title) :
    Unindented segment.toList := by
  obtain ⟨piece, _, rfl⟩ := List.mem_map.mp member
  rw [trimmedText, String.toList_ofList]
  exact Text.unindented_trim piece

private theorem OpensPath.unindented {kind : RubyUnit.Kind} {title : List Char} {call : Draft.Call}
    (opens : OpensPath kind (unitPath title) call) {name : String} (named : call.name? = some name) :
    Unindented name.toList := by
  cases opens with
  | @holder outer inner segment within =>
    cases named
    have member : name ∈ (unitPath title).dropLast := by simp [← within]
    exact unindented_unitPath (List.mem_of_mem_dropLast member)
  | unit =>
    cases named
    rw [List.getLast?_eq_some_getLast (unitPath_ne_nil title), Option.getD_some]
    exact unindented_unitPath (List.getLast_mem _)
  | visibility | leave => cases named

/-- A text opens units by the trimmed parts of its titles. -/
theorem callsOf_unindented [DataFormat] {filename : Option String} {text : String} {calls : List Call}
    (success : callsOf filename text = .ok calls) :
    ∀ call ∈ calls, ∀ name, call.name? = some name → Unindented name.toList := by
  have silent {call : Call} (unopened : call.opened? = none) :
      ∀ name, call.name? = some name → Unindented name.toList := by
    rw [Draft.Call.name?_of_unopened unopened]
    exact fun name found => by cases found
  obtain ⟨front, parts, rest, _, _, _, follows, rfl⟩ := callsOf_cases success
  rw [List.forall_mem_append]
  refine ⟨fun call made => silent (documentCalls_unopened front.metadata call made),
    forall_sectionsCalls (fun opens => ?_) (fun text => ?_) follows⟩
  · rcases headingCalls_cases opens with ⟨_, _, _, makes⟩ | ⟨_, _, moves⟩
    · obtain ⟨_, kind, each⟩ := unitCalls_cases makes
      intro call made
      rcases each call made with opening | ⟨_, introduces⟩
      · exact fun name named => opening.unindented named
      · exact silent introduces.changes.opens
    · exact fun call made => silent (moves call made).content.changes.opens
  · exact fun call made => silent (textCalls_content text call made).changes.opens

end Literate

/-! ## The walk -/

namespace Ruby

/-- Walks that open units by names that do not start with blanks. -/
def Unindents (eventful : Eventful) : Prop :=
  ∀ paths events after, eventful paths = .ok (events, after) →
    ∀ call ∈ callsOf events, ∀ name, call.name? = some name → Unindented name.toList

variable {scene : Scene}

private theorem unindented_of_unopened {call : Call} (unopened : call.opened? = none) :
    ∀ name, call.name? = some name → Unindented name.toList := by
  rw [Draft.Call.name?_of_unopened unopened]
  exact fun name found => by cases found

private theorem unindented_nameOf {tree : Tree} {name : String} (named : nameOf scene tree = .ok name) :
    Unindented name.toList := by
  unfold nameOf at named
  split at named
  · cases named
  · obtain ⟨text, _, same⟩ := Except.bind_eq_ok_iff.mp named
    cases same
    refine Text.unindented_joinScope fun segment first => ?_
    obtain ⟨piece, _, rfl⟩ := List.mem_map.mp (List.mem_filter.mp (List.mem_of_mem_head? first)).1
    rw [String.toList_ofList]
    exact Text.unindented_trim piece

/-- A unit and all in it, by induction on how deep units may still be nested. -/
theorem unindents_unit (fuel : Nat) (scope : List String) (tree : Tree) :
    Unindents (unitEvents scene fuel scope tree) := by
  induction fuel generalizing scope tree with
  | zero => rintro paths events after ⟨⟩
  | succ fuel ih =>
    refine makes_unit ?_ (fun unit made headed call listed => ?_) (fun path unit => ?_) ?_
    · rintro name named _ ⟨⟩
      exact unindented_nameOf named
    · obtain ⟨superclass, rfl⟩ := superclassCalls_inherit headed call listed
      exact unindented_of_unopened rfl
    · refine makes_body (fun inside _ _ => ih path inside)
        (fun statement _ _ _ prose made makes call member => unindented_of_unopened ?_) {} []
      rcases statementCalls_cases scene unit makes with ⟨visibility, _, rfl⟩ | ⟨_, minor⟩
      · rw [List.mem_singleton.mp member]
        rfl
      · exact (minor call member).2.opened?
    · rintro unit name ⟨⟩

private theorem unindents_events (trees : List Tree) : Unindents (eventsOf scene trees) := by
  refine makes_events fun tree _ => ?_
  unfold topEvents
  split
  · exact unindents_unit scene.root.depth [] tree
  · refine makes_of callsOf_call fun made makes call member => ?_
    obtain ⟨name, rfl⟩ := topCalls_require makes call member
    exact unindented_of_unopened rfl

end Ruby

/-! ## Documents -/

/-- What holds of the names of units, and of a name in another one if it holds of both, holds of all qualified
names: the scope of a unit is the qualified name of an earlier one. -/
theorem Document.NamespaceClosed.forall_names {document : Document} (closed : document.NamespaceClosed)
    {P : String → Prop} (named : ∀ unit ∈ document.units, P unit.name)
    (inside : ∀ outer name, P outer → P name → P (outer ++ "::" ++ name)) :
    ∀ unit ∈ document.units, P unit.qualifiedName := by
  have placed (count : Nat) : ∀ before unit after, before.length = count →
      document.units = before ++ unit :: after → P unit.qualifiedName := by
    induction count using Nat.strong_induction_on with
    | h count ih =>
      intro before unit after length split
      have own : P unit.name := named unit (split ▸ by simp)
      by_cases outermost : unit.scope = []
      · rw [RubyUnit.qualifiedName, RubyUnit.path, outermost]
        simpa [Text.joinScope] using own
      · obtain ⟨holder, listed, same⟩ := List.mem_map.mp
          (closed before unit after split unit.scope [unit.name] rfl outermost (by simp))
        obtain ⟨early, late, rfl⟩ := List.append_of_mem listed
        have around := ih early.length (by simp [← length]) early holder (late ++ unit :: after) rfl
          (by rw [split]; simp)
        rw [same] at around
        rw [RubyUnit.qualifiedName, RubyUnit.path, ← Draft.keyOf, Ruby.keyOf_path outermost]
        exact inside _ _ around own
  intro unit member
  obtain ⟨before, after, split⟩ := List.append_of_mem member
  exact placed before.length before unit after rfl split

/-- The outermost unit around a unit is named by what the qualified name of the unit starts with. -/
theorem Document.NamespaceClosed.unindented {document : Document} (closed : document.NamespaceClosed)
    (named : ∀ unit ∈ document.units, Unindented unit.name.toList) :
    ∀ unit ∈ document.units, Unindented unit.qualifiedName.toList := by
  refine closed.forall_names (P := fun name => Unindented name.toList) named fun outer name first _ c head => ?_
  rw [String.toList_append, String.toList_append, List.append_assoc, List.head?_append] at head
  rcases Option.or_eq_some_iff.mp head with own | ⟨_, mark⟩
  · exact first c own
  · cases mark
    decide

/-- No qualified name of a document that is read from a text or from a syntax tree starts with a blank. -/
theorem Document.Returned.unindented {document : Document} (returned : document.Returned) :
    ∀ unit ∈ document.units, Unindented unit.qualifiedName.toList := by
  have closed : document.NamespaceClosed := by
    obtain ⟨draft, enclosed, rfl⟩ := returned.exists_enclosed
    exact enclosed.document_closed
  refine closed.unindented fun unit member => ?_
  cases returned with
  | @read _ filename text _ success =>
    obtain ⟨calls, draft, made, run, holds, rfl⟩ := Literate.read_eq_ok_iff.mp success
    obtain ⟨call, listed, opened⟩ := run.named holds.sound.distinct unit member
    exact Literate.callsOf_unindented made call listed _ opened
  | walk success =>
    obtain ⟨events, paths, draft, told, run, enclosed, rfl⟩ := Ruby.walk_eq_ok success
    obtain ⟨call, listed, opened⟩ := run.named enclosed.distinct unit member
    exact Ruby.unindents_events _ [] events paths told call listed _ opened

/-- No such document breaks a rule, and neither does any of its units. -/
theorem Document.Returned.flawless {document : Document} (returned : document.Returned) :
    document.flaw? = none ∧ ∀ unit ∈ document.units, unit.flaw? = none := by
  cases returned with
  | read success =>
    obtain ⟨draft, _, built⟩ := Outcome.bind_result_eq_ok_iff.mp success
    exact Draft.flawless_of_build (Except.mapError_eq_ok_iff.mp built)
  | walk success =>
    obtain ⟨draft, _, built⟩ := Outcome.bind_result_eq_ok_iff.mp success
    exact Draft.flawless_of_build (Except.mapError_eq_ok_iff.mp built)

end LiterateRuby
