import LiterateRuby.Proofs.Draft.Consistent
import LiterateRuby.Proofs.Draft.Independent
import LiterateRuby.Proofs.Literate.Written
import LiterateRuby.Proofs.Namespace
import Mathlib.Algebra.Order.BigOperators.Group.List
import Mathlib.Algebra.Order.Group.Nat

/-! # No module vanishes

A module that only holds nested units has no section of its own in the heading notation. It still leaves a
trace there: both readers say that a unit holds others only where they open a unit inside it
(`Draft.Inhabits`), and that unit has a longer name, so a unit that is written is found by going on inside
it (`exists_real`). Hence the text of a document is empty only if the document is.
-/

namespace LiterateRuby

open Draft (Call slotRun? slotRun?_append slotRun?_cons_of_unit slotRun?_cons_of_ne)

/-! ## Calls -/

/-- Whether a unit was said to hold others. -/
def UnitDraft.Houses (unit : UnitDraft) : Prop := unit.holder = true ∨ unit.namespaceOnly = true

private theorem UnitDraft.houses_of_frozen {unit : UnitDraft} (mere : unit.frozen.isNamespaceOnly = true) :
    unit.Houses := by
  have namespaceDraft := isNamespace_of_frozen mere
  simp only [isNamespace, Bool.and_eq_true, Bool.or_eq_true] at namespaceDraft
  exact namespaceDraft.1.2

namespace Draft

/-- The key of a unit that a call says to hold others. -/
def Call.houses? : Call → Option String
  | .ensureHolder name scope => some (keyOf name scope)
  | .markNamespaceOnly unit => some unit
  | _ => none

private theorem Call.fresh?_houses {call : Call} {key : String} {unit : UnitDraft}
    (addressed : call.unit? = some key)
    (fresh : call.fresh? = some unit) (houses : unit.Houses) : call.houses? = some key := by
  cases Call.opens_of_fresh? fresh with
  | unit named => rcases houses with given | given <;> cases given
  | holder => exact addressed

/-- A unit that holds others did so before, or was said to. -/
theorem Call.update?_houses {call : Call} {key : String} {unit next : UnitDraft}
    (addressed : call.unit? = some key) (updated : call.update? unit = some next) (houses : next.Houses) :
    unit.Houses ∨ call.houses? = some key := by
  cases Call.updates_of_update? updated with
  | marked _ | unmarked _ | held => exact .inr addressed
  | adopted named holds => exact .inl (.inl holds)
  | _ => exact .inl houses

/-- A unit holds others only if a call said so. -/
theorem slotRun?_houses {key : String} {calls : List Call} {unit : UnitDraft}
    (success : slotRun? key none calls = some (some unit)) (houses : unit.Houses) :
    ∃ call ∈ calls, call.houses? = some key := by
  refine slotRun?_preserves (P := fun unit => unit.Houses → ∃ call ∈ calls, call.houses? = some key) (by simp)
    (fun call member addressed made fresh houses => ⟨call, member, Call.fresh?_houses addressed fresh houses⟩)
    (fun call member addressed old made earlier updated houses => ?_) success houses
  rcases Call.update?_houses addressed updated houses with before | said
  · exact earlier before
  · exact ⟨call, member, said⟩

def OpensInside (key : String) (calls : List Call) : Prop :=
  ∃ name kind scope rest, Call.addUnit name kind scope ∈ calls ∧ keyOf name scope = key ++ "::" ++ rest

private theorem OpensInside.mono {key : String} {calls more : List Call} (opens : OpensInside key calls)
    (within : calls ⊆ more) : OpensInside key more := by
  obtain ⟨name, kind, scope, rest, opened, named⟩ := opens
  exact ⟨name, kind, scope, rest, within opened, named⟩

/-- Calls that open a unit inside each unit that they say to hold others. -/
def Inhabits (calls : List Call) : Prop :=
  ∀ call ∈ calls, ∀ key, call.houses? = some key → OpensInside key calls

private theorem inhabits_of_unhoused {calls : List Call} (unhoused : ∀ call ∈ calls, call.houses? = none) :
    Inhabits calls := by
  intro call member key said
  rw [unhoused call member] at said
  cases said

private theorem Inhabits.append {first second : List Call} (inhabits : Inhabits first) (more : Inhabits second) :
    Inhabits (first ++ second) := by
  intro call member key said
  rcases List.mem_append.mp member with early | late
  · exact (inhabits call early key said).mono (List.subset_append_left _ _)
  · exact (more call late key said).mono (List.subset_append_right _ _)

/-- A unit may be marked as holding others once a unit was opened inside it. -/
theorem Inhabits.mark {calls : List Call} {key : String} (inhabits : Inhabits calls)
    (opens : OpensInside key calls) : Inhabits (calls ++ [.markNamespaceOnly key]) := by
  intro call member other said
  rcases List.mem_append.mp member with early | last
  · exact (inhabits call early other said).mono (List.subset_append_left _ _)
  · rw [List.mem_singleton.mp last] at said
    cases said
    exact opens.mono (List.subset_append_left _ _)

/-- Inside each mere namespace that such calls leave there is another unit. -/
theorem Runs.exists_inside {filename : Option String} {calls : List Call} {draft : Draft}
    (run : (empty filename).Runs calls draft) (inhabits : Inhabits calls) :
    ∀ mere ∈ draft.document.units, mere.isNamespaceOnly = true →
      ∃ unit ∈ draft.document.units, ∃ rest, unit.qualifiedName = mere.qualifiedName ++ "::" ++ rest := by
  have keyed := run.keyed
  have name_eq {key : String} {held : UnitDraft} (found : draft.units.get? key = some held) :
      held.frozen.qualifiedName = key := (UnitDraft.frozen_qualifiedName held).trans (keyed.named key held found)
  intro mere member only
  obtain ⟨⟨key, held⟩, listed, rfl⟩ := List.mem_map.mp member
  have found := Entries.get?_of_mem keyed.distinct listed
  obtain ⟨call, made, said⟩ :=
    slotRun?_houses ((run.get? key).trans (congrArg some found)) (UnitDraft.houses_of_frozen only)
  obtain ⟨name, kind, scope, rest, opened, named⟩ := inhabits call made key said
  -- the unit inside was addressed, so it is there
  obtain ⟨inner, present⟩ : ∃ inner, draft.units.get? (keyOf name scope) = some inner := by
    apply Option.ne_none_iff_exists'.mp
    intro absent
    have unaddressed := (slotRun?_eq_some_none_iff (run.get? (keyOf name scope))).mp absent
    exact absurd (List.find?_eq_none.mp unaddressed _ opened) (by simp [Call.unit?])
  refine ⟨inner.frozen, List.mem_map_of_mem (Entries.mem_of_get? present), rest, ?_⟩
  rw [name_eq found, name_eq present, named]

end Draft

/-! ## Titles -/

namespace Literate

private theorem inhabits_openingCalls (kind : RubyUnit.Kind) {path : List String} (given : path ≠ []) :
    Draft.Inhabits (openingCalls kind path) := by
  intro call made key said
  cases openingCalls_open kind path call made with
  | @holder outer inner name within =>
    cases said
    refine ⟨path.getLast?.getD "", kind, path.dropLast, Text.joinScope (inner ++ [path.getLast given]),
      by simp [openingCalls], ?_⟩
    have whole : path.dropLast ++ [path.getLast given] = (outer ++ [name]) ++ (inner ++ [path.getLast given]) := by
      simp [← within]
    rw [List.getLast?_eq_some_getLast given, Option.getD_some, Draft.keyOf, whole, Text.joinScope,
      String.intercalate_append_of_ne_nil (by simp) (by simp)]
    rfl
  | unit | visibility | leave => cases said

private theorem textCalls_unhoused {unit : String} {method : Option MethodTitle} {lines : List (List Char)}
    {calls : List Call} (success : textCalls unit method lines = .ok calls) :
    ∀ call ∈ calls, call.houses? = none := by
  rcases textCalls_cases success with ⟨title, rfl, rfl⟩ | ⟨rfl, declares⟩
  · rintro call (_ | ⟨_, ⟨⟩⟩)
    rfl
  · intro call made
    cases declares call made <;> rfl

private theorem inhabits_headingCalls {metadata : Metadata} {unit : Option String} {heading : Heading}
    {calls : List Call} {inside : String} {method : Option MethodTitle}
    (success : headingCalls metadata unit heading = .ok (calls, inside, method)) : Draft.Inhabits calls := by
  rcases headingCalls_cases success with ⟨_, _, _, opens⟩ | ⟨_, _, moves⟩
  · obtain ⟨kind, _, _, _, rfl⟩ := unitCalls_eq_ok_iff.mp opens
    refine (inhabits_openingCalls kind (unitPath_ne_nil heading.title)).append
      (Draft.inhabits_of_unhoused ?_)
    intro call made
    split at made
    · cases made
    · cases frontMatterCalls_introduce metadata kind _ call made <;> rfl
  · refine Draft.inhabits_of_unhoused fun call made => ?_
    cases moves call made <;> rfl

private theorem inhabits_sectionsCalls {metadata : Metadata} {unit : Option String} {parts : List Section}
    {calls : List Call} (success : sectionsCalls metadata unit parts = .ok calls) : Draft.Inhabits calls := by
  induction parts generalizing unit calls with
  | nil =>
    cases success
    exact Draft.inhabits_of_unhoused (by simp)
  | cons part rest ih =>
    obtain ⟨opening, inside, method, content, later, opens, text, follows, rfl⟩ :=
      sectionsCalls_cons_eq_ok_iff.mp success
    exact (inhabits_headingCalls opens).append
      ((Draft.inhabits_of_unhoused (textCalls_unhoused text)).append (ih follows))

/-- A title that goes through a module opens a unit in it. -/
theorem callsOf_inhabits [DataFormat] {filename : Option String} {text : String} {calls : List Call}
    (success : callsOf filename text = .ok calls) : Draft.Inhabits calls := by
  obtain ⟨front, parts, rest, _, _, _, follows, rfl⟩ := callsOf_cases success
  refine (Draft.inhabits_of_unhoused fun call made => ?_).append (inhabits_sectionsCalls follows)
  simp only [documentCalls, List.mem_cons, List.mem_map] at made
  rcases made with rfl | ⟨name, _, rfl⟩ <;> rfl

end Literate

/-! ## The walk -/

namespace Ruby

variable {scene : Scene}

/-- Walks that open a unit inside each unit that they say to hold others. -/
def Populates (eventful : Eventful) : Prop :=
  ∀ paths events after, paths.Sound → eventful paths = .ok (events, after) →
    after.Sound ∧ Draft.Inhabits (callsOf events)

private theorem populates_nothing : Populates (fun paths => .ok ([], paths)) := by
  rintro paths _ _ sound ⟨⟩
  exact ⟨sound, Draft.inhabits_of_unhoused (by simp)⟩

private theorem Populates.andThen {first second : Eventful} (populates : Populates first)
    (continues : Populates second) : Populates (first.andThen second) := by
  intro paths events after sound success
  obtain ⟨early, middle, late, begun, ended, rfl⟩ := andThen_eq_ok success
  obtain ⟨kept, inhabits⟩ := populates paths early middle sound begun
  obtain ⟨kept, more⟩ := continues middle late after kept ended
  rw [callsOf_append]
  exact ⟨kept, inhabits.append more⟩

private theorem populates_of {event : List Call → List Event} {calls : Except WalkFault (List Call)}
    (told : ∀ made, callsOf (event made) = made)
    (unhoused : ∀ made, calls = .ok made → ∀ call ∈ made, call.houses? = none) :
    Populates (Eventful.of event calls) := by
  intro paths events after sound success
  obtain ⟨made, makes, rfl, rfl⟩ := of_eq_ok success
  rw [told made]
  exact ⟨sound, Draft.inhabits_of_unhoused (unhoused made makes)⟩

private theorem unhoused_of_steady {call : Call} (steady : call.Steady) : call.houses? = none := by
  cases call <;> first | rfl | cases steady

private theorem populates_body {nested : Tree → Eventful} {unit : String} (inner : ∀ tree, Populates (nested tree))
    (run : ProseRun) (before statements : List Tree) :
    Populates (bodyEvents scene nested unit run before statements) := by
  induction statements generalizing run before with
  | nil => exact populates_nothing
  | cons statement rest ih =>
    unfold bodyEvents
    split
    · intro paths events after sound success
      obtain ⟨run, _, remains⟩ := Except.bind_eq_ok_iff.mp success
      exact ih run _ paths events after sound remains
    · split
      · exact (inner statement).andThen (ih {} _)
      · have told (made : List Call) :
            callsOf [.statement unit before statement made] = made := List.append_nil made
        refine (populates_of told fun made makes call member => ?_).andThen (ih {} _)
        rcases statementCalls_cases scene unit makes with ⟨visibility, _, rfl⟩ | ⟨_, minor⟩
        · rw [List.mem_singleton.mp member]
          rfl
        · exact unhoused_of_steady (minor call member).2

/-- A module is marked as holding others only if a unit is opened in its body. -/
theorem inhabits_closingCalls {fuel : Nat} {path : List String} {unit : String} {tree : Tree}
    {paths after : Paths} {events : List Event} (nested : path ≠ []) (spelled : Text.joinScope path = unit)
    (sound : paths.Sound)
    (success : bodyEvents scene (unitEvents scene fuel path) unit {} [] (statementsOf tree) paths =
      .ok (events, after)) (inhabits : Draft.Inhabits (callsOf events)) :
    Draft.Inhabits (callsOf events ++ closingCalls unit tree) := by
  unfold closingCalls
  split
  · next holds =>
    rw [Bool.and_eq_true, List.any_eq_true] at holds
    obtain ⟨_, statement, listed, defines⟩ := holds
    obtain ⟨front, part, back, early, late, rfl, _, walked⟩ :=
      exists_nested (fits_nested nested spelled fuel) sound success listed defines
    obtain ⟨less, name, superclass, body, _, _, _, _, rfl⟩ := unitEvents_eq_ok walked
    refine inhabits.mark ⟨name, kindOf statement, path, name, ?_, by rw [keyOf_path nested, spelled]⟩
    simp [Event.calls]
  · simpa using inhabits

/-- A unit and all in it, by induction on how deep units may still be nested. -/
theorem populates_unit (fuel : Nat) (scope : List String) (tree : Tree) :
    Populates (unitEvents scene fuel scope tree) := by
  induction fuel generalizing scope tree with
  | zero => rintro paths events after _ ⟨⟩
  | succ fuel ih =>
    intro paths events after sound success
    obtain ⟨less, name, superclass, body, _, headed, walked, enough, rfl⟩ := unitEvents_eq_ok success
    obtain rfl : fuel = less := Nat.succ.inj enough
    obtain ⟨nested, spelled⟩ := sound.pathIn scope name
    have known := sound.put nested spelled
    obtain ⟨inside, middle, closing, read, closes, rfl⟩ := andThen_eq_ok walked
    obtain ⟨_, made, rfl, rfl⟩ := of_eq_ok closes
    cases made
    obtain ⟨kept, inhabits⟩ := populates_body (ih (pathIn paths scope name)) {} [] (statementsOf tree) _
      inside after known read
    have header : ∀ call ∈ Call.addUnit name (kindOf tree) scope :: superclass, call.houses? = none := by
      rintro call (_ | ⟨_, later⟩)
      · rfl
      · obtain ⟨superclass, rfl⟩ := superclassCalls_inherit headed call later
        rfl
    have whole := (Draft.inhabits_of_unhoused header).append
      (inhabits_closingCalls nested spelled known read inhabits)
    refine ⟨kept, ?_⟩
    simpa [callsOf_call, Event.calls] using whole

private theorem populates_events (trees : List Tree) : Populates (eventsOf scene trees) := by
  induction trees with
  | nil => exact populates_nothing
  | cons tree rest ih =>
    refine Populates.andThen ?_ ih
    unfold topEvents
    split
    · exact populates_unit scene.root.depth [] tree
    · refine populates_of callsOf_call fun made makes call member => ?_
      obtain ⟨name, rfl⟩ := topCalls_require makes call member
      rfl

end Ruby

/-! ## Documents -/

/-- If there is another unit inside each mere namespace, there is one that is none itself: each step goes
to a longer name. -/
theorem exists_real {units : List RubyUnit}
    (inside : ∀ mere ∈ units, mere.isNamespaceOnly = true →
      ∃ unit ∈ units, ∃ rest, unit.qualifiedName = mere.qualifiedName ++ "::" ++ rest) :
    ∀ mere ∈ units, mere.isNamespaceOnly = true →
      ∃ unit ∈ units, unit.isNamespaceOnly = false ∧
        ∃ rest, unit.qualifiedName = mere.qualifiedName ++ "::" ++ rest := by
  obtain ⟨bound, bounded⟩ : ∃ bound, ∀ unit ∈ units, unit.qualifiedName.length ≤ bound :=
    ⟨(units.map (·.qualifiedName.length)).sum, fun unit member =>
      List.le_sum_of_mem (List.mem_map_of_mem member)⟩
  intro mere member only
  induction gap : bound - mere.qualifiedName.length using Nat.strong_induction_on generalizing mere with
  | h gap ih =>
    obtain ⟨unit, listed, rest, named⟩ := inside mere member only
    cases real : unit.isNamespaceOnly with
    | false => exact ⟨unit, listed, real, rest, named⟩
    | true =>
      have longer : unit.qualifiedName.length = mere.qualifiedName.length + 2 + rest.length := by
        rw [named, String.length_append, String.length_append]
        rfl
      have within := bounded unit listed
      obtain ⟨inner, present, found, more, again⟩ := ih _ (by omega) unit listed real rfl
      exact ⟨inner, present, found, rest ++ "::" ++ more, by rw [again, named]; simp [String.append_assoc]⟩

theorem Document.Returned.exists_inside {document : Document} (returned : document.Returned) :
    ∀ mere ∈ document.units, mere.isNamespaceOnly = true →
      ∃ unit ∈ document.units, ∃ rest, unit.qualifiedName = mere.qualifiedName ++ "::" ++ rest := by
  cases returned with
  | read success =>
    obtain ⟨calls, draft, made, run, _, rfl⟩ := Literate.read_eq_ok_iff.mp success
    exact run.exists_inside (Literate.callsOf_inhabits made)
  | walk success =>
    obtain ⟨events, paths, draft, told, run, _, rfl⟩ := Ruby.walk_eq_ok success
    exact run.exists_inside
      (Ruby.populates_events _ [] events paths Ruby.Paths.sound_nil told).2

/-! ## Texts -/

private theorem Document.hasContent_eq_false_iff {document : Document} :
    document.hasContent = false ↔ document.units = [] ∧ document.requires = [] := by
  simp [hasContent]

namespace Render

private theorem text_ne_empty (lines : List String) : "\n".intercalate lines ++ "\n" ≠ "" := by
  intro empty
  have ends := congrArg String.length empty
  simp [String.length_append] at ends

theorem textOf_eq_empty_iff {lines : List String} : textOf lines = "" ↔ lines = [] := by
  unfold textOf
  split
  · next empty => simpa using empty
  · next filled =>
    have given : lines ≠ [] := by simpa using filled
    simp [given, text_ne_empty lines]

theorem ruby_eq_ok_iff {settings : RenderSettings} {document : Document} {code : String} :
    ruby settings document = .ok code ↔ ∃ lines, rubyLines settings document = .ok lines ∧ textOf lines = code := by
  unfold ruby
  cases rubyLines settings document <;> simp

/-- No code is rendered exactly of an empty document. -/
theorem ruby_eq_empty_iff {settings : RenderSettings} {document : Document} :
    ruby settings document = .ok "" ↔ document.hasContent = false := by
  rw [Document.hasContent_eq_false_iff]
  constructor
  · intro success
    obtain ⟨lines, rendered, empty⟩ := ruby_eq_ok_iff.mp success
    obtain rfl := textOf_eq_empty_iff.mp empty
    obtain ⟨branches, made, joined⟩ := Except.bind_eq_ok_iff.mp rendered
    have nothing := joinSections_eq_nil_iff.mp (Except.ok.inj joined)
    rw [branchLinesAll_eq_mapM] at made
    refine ⟨Branch.forest_eq_nil_iff.mp ?_, List.map_eq_nil_iff.mp (nothing _ List.mem_cons_self)⟩
    cases forest : Branch.forest document.units with
    | nil => rfl
    | cons first rest =>
      rw [forest, List.mapM_cons] at made
      obtain ⟨lines, opened, made⟩ := Except.bind_eq_ok_iff.mp made
      obtain ⟨others, _, same⟩ := Except.bind_eq_ok_iff.mp made
      cases same
      exact absurd (nothing lines (by simp)) (branchLines_ne_nil opened)
  · rintro ⟨units, requires⟩
    unfold ruby rubyLines
    rw [units, requires]
    rfl

/-- No Markdown is rendered exactly of an empty document. -/
theorem markdown_eq_empty_iff {settings : RenderSettings} {document : Document} :
    markdown settings document = .ok "" ↔ document.hasContent = false := by
  rw [← @ruby_eq_empty_iff settings]
  unfold markdown
  rw [Except.bind_eq_ok_iff]
  constructor
  · rintro ⟨code, rendered, success⟩
    split at success
    · next empty => rw [rendered, empty]
    · have ends := congrArg String.length (Except.ok.inj success)
      simp [String.length_append] at ends
  · intro absent
    exact ⟨"", absent, rfl⟩

end Render

namespace Literate

/-- No text is written exactly if there are neither units to write nor libraries to require. -/
theorem write_eq_empty_iff [DataFormat] {settings : RenderSettings} {document : Document} :
    (write settings document).result = .ok "" ↔
      (∀ unit ∈ document.units, unit.isNamespaceOnly = true) ∧ document.requires = [] := by
  have unwritten : document.units.filter (!·.isNamespaceOnly) = [] ↔
      ∀ unit ∈ document.units, unit.isNamespaceOnly = true := by
    simp [List.filter_eq_nil_iff]
  rw [← unwritten]
  unfold write
  dsimp only
  split
  · next nothing => simpa using nothing
  · next filled =>
    constructor
    · intro success
      obtain ⟨_, _, success⟩ := Outcome.bind_result_eq_ok_iff.mp success
      obtain ⟨parts, _, same⟩ := Outcome.bind_result_eq_ok_iff.mp success
      exact absurd (Except.ok.inj same) (Render.text_ne_empty _)
    · rintro ⟨units, requires⟩
      simp [units, requires] at filled

end Literate

/-- Inside each module of a document that only holds nested units there is a unit that is written. -/
def Document.NamespacesShown (document : Document) : Prop :=
  ∀ mere ∈ document.units, mere.isNamespaceOnly = true →
    ∃ unit ∈ document.units, unit.isNamespaceOnly = false ∧
      ∃ rest, unit.qualifiedName = mere.qualifiedName ++ "::" ++ rest

/-- In a document that is read from a text or from a syntax tree no module vanishes, so each form that it
is rendered in is empty exactly if the document is. -/
theorem Document.Returned.namespacesShown [DataFormat] {document : Document} (returned : document.Returned) :
    document.NamespacesShown ∧
      ∀ settings : RenderSettings,
        ((Literate.write settings document).result = .ok "" ↔ document.hasContent = false) ∧
        (Render.ruby settings document = .ok "" ↔ document.hasContent = false) ∧
        (Render.markdown settings document = .ok "" ↔ document.hasContent = false) := by
  have shown : document.NamespacesShown := exists_real returned.exists_inside
  refine ⟨shown, fun settings => ⟨?_, Render.ruby_eq_empty_iff, Render.markdown_eq_empty_iff⟩⟩
  rw [Literate.write_eq_empty_iff, Document.hasContent_eq_false_iff]
  constructor
  · rintro ⟨mere, requires⟩
    refine ⟨List.eq_nil_iff_forall_not_mem.mpr fun unit member => ?_, requires⟩
    obtain ⟨inner, listed, real, _⟩ := shown unit member (mere unit member)
    rw [mere inner listed] at real
    cases real
  · rintro ⟨units, requires⟩
    exact ⟨by simp [units], requires⟩

/-- In the tree a module is reopened by the path of a class in it; the title goes through two modules. -/
theorem Document.Returned.namespacesShown_of_two_spellings :
    (∃ document, (Ruby.walk Ruby.reopenedByPath (Draft.empty none)).result = .ok document ∧
        document.units.map (·.isNamespaceOnly) = [true, false, false] ∧ document.NamespacesShown ∧
        ∀ settings : RenderSettings, (Literate.write settings document).result ≠ .ok "") ∧
      ∃ document, (Literate.read none "# module A::B::C").result = .ok document ∧
        document.units.map (·.isNamespaceOnly) = [true, true, false] ∧ document.NamespacesShown ∧
        ∀ settings : RenderSettings, (Literate.write settings document).result ≠ .ok "" := by
  obtain ⟨walked, success, marks⟩ : ∃ document,
      (Ruby.walk Ruby.reopenedByPath (Draft.empty none)).result = .ok document ∧
        document.units.map (·.isNamespaceOnly) = [true, false, false] :=
    Except.exists_of_toOption (by decide +kernel)
  obtain ⟨read, accepted, marked⟩ : ∃ document, (Literate.read none "# module A::B::C").result = .ok document ∧
      document.units.map (·.isNamespaceOnly) = [true, true, false] :=
    Except.exists_of_toOption (by decide +kernel)
  obtain ⟨shown, empty⟩ := Document.Returned.namespacesShown (.walk success)
  obtain ⟨seen, blank⟩ := Document.Returned.namespacesShown (.read accepted)
  have given {document : Document} {first : Bool} {rest : List Bool}
      (units : document.units.map (·.isNamespaceOnly) = first :: rest) : document.hasContent ≠ false := by
    rw [ne_eq, Document.hasContent_eq_false_iff]
    rintro ⟨vacant, _⟩
    rw [vacant] at units
    cases units
  exact ⟨⟨walked, success, marks, shown, fun settings => mt (empty settings).1.mp (given marks)⟩,
    read, accepted, marked, seen, fun settings => mt (blank settings).1.mp (given marked)⟩

end LiterateRuby
