import LiterateRuby.Proofs.Draft.Enclosed
import LiterateRuby.Proofs.Literate.Methods
import LiterateRuby.Proofs.Ruby.Visibility

/-! # Units stand after the units around them

The two readers see to it in different ways: a title opens every unit that its path goes through, while a
walk opens a unit only inside the body of the unit around it, under the path that was recorded for that
unit first. In both cases the calls nest, so the document is closed under enclosing units
(`Document.Returned.namespaceClosed`).
-/

namespace LiterateRuby

open Draft (Call Covers Nests)

/-- What the readers return, a text whatever the format of its front matter is. -/
inductive Document.Returned : Document → Prop where
  | read [DataFormat] {filename : Option String} {text : String} {document : Document}
      (success : (Literate.read filename text).result = .ok document) : Returned document
  | walk {scene : Ruby.Scene} {filename : Option String} {document : Document}
      (success : (Ruby.walk scene (Draft.empty filename)).result = .ok document) : Returned document

namespace Literate

/-- Each holder is opened in the scope that the ones before it make up. -/
theorem nests_holderCalls {known above : List String} (covers : Covers known above)
    (scope : List String) :
    Nests known (holderCalls above scope) ∧
      Covers (known ++ (holderCalls above scope).filterMap Call.opened?) (above ++ scope) := by
  induction scope generalizing known above with
  | nil => simpa [holderCalls, Nests] using covers
  | cons name rest ih =>
    have opened : Covers (known ++ [Draft.keyOf name above]) (above ++ [name]) :=
      (covers.mono (List.subset_append_left _ _)).concat (by simp)
    obtain ⟨nests, reached⟩ := ih opened
    refine ⟨⟨fun key scope _ within => .inr ?_, nests⟩, ?_⟩
    · cases within
      exact covers
    · simpa [holderCalls, Call.opened?] using reached

private theorem nests_openingCalls (known : List String) (kind : RubyUnit.Kind) (path : List String) :
    Nests known (openingCalls kind path) := by
  obtain ⟨nests, reached⟩ := nests_holderCalls (Draft.covers_nil known) path.dropLast
  refine Draft.nests_append.mpr ⟨nests, ⟨fun key scope _ within => .inr ?_, ?_⟩⟩
  · cases within
    exact reached
  · refine ⟨fun key scope opened => ?_, fun key scope opened => ?_, trivial⟩
    · cases opened
    · cases opened

/-- The calls of a unit heading nest, whatever is known, and the unit is known after them. -/
theorem nests_unitCalls {metadata : Metadata} {opened : Bool} {title : List Char} {calls : List Call}
    (success : unitCalls metadata opened title = .ok calls) (known : List String) :
    Nests known calls ∧ unitKey title ∈ known ++ calls.filterMap Call.opened? := by
  obtain ⟨kind, _, _, _, rfl⟩ := unitCalls_eq_ok_iff.mp success
  have reached : unitKey title ∈ (openingCalls kind (unitPath title)).filterMap Call.opened? := by
    refine List.mem_filterMap.mpr ⟨.addUnit ((unitPath title).getLast?.getD "") kind
      (unitPath title).dropLast, ?_, ?_⟩
    · simp [openingCalls]
    · exact congrArg some (keyOf_unitPath title)
  constructor
  · refine Draft.nests_append.mpr ⟨nests_openingCalls known kind _, Draft.nests_of_known ?_⟩
    intro call made key target
    split at made
    · cases made
    · rw [(frontMatterCalls_changes metadata kind _ call made).addressed] at target
      cases target
      exact List.mem_append_right _ reached
  · rw [List.filterMap_append]
    exact List.mem_append_right _ (List.mem_append_left _ reached)

private theorem nests_of_unit {known : List String} {unit : String} (opened : unit ∈ known) {calls : List Call}
    (addressed : ∀ call ∈ calls, call.unit? = some unit) : Nests known calls := by
  refine Draft.nests_of_known fun call member key target => ?_
  obtain rfl : unit = key := Option.some.inj ((addressed call member).symm.trans target)
  exact opened

/-- The calls of a heading nest, and the unit that is open after them is known. -/
theorem nests_headingCalls {metadata : Metadata} {unit : Option String} {heading : Heading}
    {calls : List Call} {inside : String} {method : Option MethodTitle} {known : List String}
    (success : headingCalls metadata unit heading = .ok (calls, inside, method))
    (opened : ∀ key, unit = some key → key ∈ known) :
    Nests known calls ∧ inside ∈ known ++ calls.filterMap Call.opened? := by
  rcases headingCalls_cases success with ⟨_, rfl, _, opens⟩ | ⟨_, rfl, moves⟩
  · exact nests_unitCalls opens known
  · have member := opened _ rfl
    exact ⟨nests_of_unit member fun call made => (moves call made).unit?_eq, List.mem_append_left _ member⟩

private theorem nests_sectionsCalls {metadata : Metadata} {unit : Option String} {parts : List Section}
    {calls : List Call} {known : List String} (success : sectionsCalls metadata unit parts = .ok calls)
    (opened : ∀ key, unit = some key → key ∈ known) : Nests known calls := by
  induction parts generalizing unit calls known with
  | nil =>
    cases success
    trivial
  | cons part rest ih =>
    obtain ⟨opening, inside, method, content, later, opens, holds, follows, rfl⟩ :=
      sectionsCalls_cons_eq_ok_iff.mp success
    obtain ⟨nests, member⟩ := nests_headingCalls opens opened
    refine Draft.nests_append.mpr ⟨nests, Draft.nests_append.mpr ⟨?_, ih follows ?_⟩⟩
    · exact nests_of_unit member (textCalls_unit holds)
    · rintro key ⟨⟩
      exact List.mem_append_left _ member

/-- The calls of a text nest. -/
theorem callsOf_nests [DataFormat] {filename : Option String} {text : String} {calls : List Call}
    (success : callsOf filename text = .ok calls) : Nests [] calls := by
  obtain ⟨front, parts, rest, _, _, _, follows, rfl⟩ := callsOf_cases success
  refine Draft.nests_append.mpr ⟨Draft.nests_of_known fun call made key target => ?_,
    nests_sectionsCalls follows (by simp)⟩
  rw [documentCalls_unaddressed front.metadata call made] at target
  cases target

end Literate

/-! ## The walk -/

namespace Ruby

/-- The paths that are known spell their units and go through known units only. -/
structure Paths.Covered (known : List String) (paths : Paths) : Prop where
  sound : paths.Sound
  covers : ∀ unit path, paths.get? unit = some path → Covers known path

private theorem Paths.covered_nil (known : List String) : Paths.Covered known [] where
  sound := Paths.sound_nil
  covers := by rintro unit path ⟨⟩

private theorem Paths.Covered.mono {known more : List String} {paths : Paths} (covered : paths.Covered known)
    (kept : known ⊆ more) : paths.Covered more where
  sound := covered.sound
  covers unit path found := (covered.covers unit path found).mono kept

private theorem Paths.Covered.put {known : List String} {paths : Paths} (covered : paths.Covered known)
    {unit : String} {path : List String} (nested : path ≠ []) (spelled : Text.joinScope path = unit)
    (covers : Covers known path) : Paths.Covered known (paths.put unit path) where
  sound := covered.sound.put nested spelled
  covers other found success := by
    rw [Entries.get?_put] at success
    split at success
    · cases success
      exact covers
    · exact covered.covers other found success

/-- The path of a unit that is opened in a known scope goes through known units, whether it is that scope
or the path under which the unit was seen first. -/
theorem Paths.Covered.pathIn {known : List String} {paths : Paths} (covered : paths.Covered known)
    {scope : List String} (covers : Covers known scope) (name : String) :
    Covers (known ++ [Draft.keyOf name scope]) (Ruby.pathIn paths scope name) := by
  unfold Ruby.pathIn
  cases recorded : paths.get? (Draft.keyOf name scope) with
  | some path => exact (covered.covers _ path recorded).mono (List.subset_append_left _ _)
  | none => exact (covers.mono (List.subset_append_left _ _)).concat (by simp)

/-- Walks in a scope whose calls nest and which keep the paths covered. -/
def Encloses (scope : List String) (eventful : Eventful) : Prop :=
  ∀ known paths events after, Covers known scope → paths.Covered known →
    eventful paths = .ok (events, after) →
      Nests known (callsOf events) ∧
        after.Covered (known ++ (callsOf events).filterMap Call.opened?)

variable {scene : Scene} {scope : List String}

private theorem encloses_nothing : Encloses scope (fun paths => .ok ([], paths)) := by
  intro known paths events after _ covered success
  cases success
  exact ⟨trivial, by simpa using covered⟩

private theorem Encloses.andThen {first second : Eventful} (encloses : Encloses scope first)
    (continues : Encloses scope second) : Encloses scope (first.andThen second) := by
  intro known paths events after covers covered success
  obtain ⟨early, middle, late, begun, ended, rfl⟩ := andThen_eq_ok success
  obtain ⟨nests, reached⟩ := encloses known paths early middle covers covered begun
  obtain ⟨more, final⟩ :=
    continues _ middle late after (covers.mono (List.subset_append_left _ _)) reached ended
  rw [callsOf_append]
  exact ⟨Draft.nests_append.mpr ⟨nests, more⟩, by simpa using final⟩

private theorem encloses_given {α : Type} (first : Except WalkFault α) {events : α → Eventful}
    (each : ∀ value, Encloses scope (events value)) :
    Encloses scope (fun paths => first >>= fun value => events value paths) := by
  intro known paths made after covers covered success
  obtain ⟨value, _, remains⟩ := Except.bind_eq_ok_iff.mp success
  exact each value known paths made after covers covered remains

/-- Calls to the unit of the scope open nothing. -/
theorem encloses_of {event : List Call → List Event} {calls : Except WalkFault (List Call)}
    (told : ∀ made, callsOf (event made) = made)
    (addressed : ∀ made, calls = .ok made → ∀ call ∈ made, ∀ key, call.unit? = some key →
      scope ≠ [] ∧ Text.joinScope scope = key) :
    Encloses scope (Eventful.of event calls) := by
  intro known paths events after covers covered success
  obtain ⟨made, makes, rfl, rfl⟩ := of_eq_ok success
  rw [told made]
  refine ⟨Draft.nests_of_known fun call member key target => ?_,
    covered.mono (List.subset_append_left _ _)⟩
  obtain ⟨nested, rfl⟩ := addressed made makes call member key target
  exact covers scope List.prefix_rfl nested

private theorem encloses_body {nested : Tree → Eventful} {unit : String} (within : scope ≠ [])
    (spelled : Text.joinScope scope = unit) (inner : ∀ tree, Encloses scope (nested tree))
    (run : ProseRun) (before statements : List Tree) :
    Encloses scope (bodyEvents scene nested unit run before statements) := by
  induction statements generalizing run before with
  | nil => exact encloses_nothing
  | cons statement rest ih =>
    unfold bodyEvents
    split
    · exact encloses_given _ fun run => ih run _
    · split
      · exact (inner statement).andThen (ih {} _)
      · have told (made : List Call) :
            callsOf [.statement unit before statement made] = made := List.append_nil made
        refine (encloses_of told ?_).andThen (ih {} _)
        intro made makes call member key target
        refine ⟨within, spelled.trans ?_⟩
        rcases statementCalls_cases scene unit makes with ⟨visibility, _, rfl⟩ | ⟨_, minor⟩
        · rw [List.mem_singleton.mp member] at target
          exact Option.some.inj target
        · exact ((minor call member).1 key target).symm

/-- A unit and all in it is walked with calls that nest, by induction on how deep units may still be
nested. -/
theorem encloses_unit (fuel : Nat) (scope : List String) (tree : Tree) :
    Encloses scope (unitEvents scene fuel scope tree) := by
  induction fuel generalizing scope tree with
  | zero =>
    intro known paths events after _ _ success
    cases success
  | succ fuel ih =>
    intro known paths events after covers covered success
    obtain ⟨less, name, superclass, body, _, headed, walked, enough, rfl⟩ := unitEvents_eq_ok success
    obtain rfl : fuel = less := Nat.succ.inj enough
    obtain ⟨nested, spelled⟩ := covered.sound.pathIn scope name
    have path := covered.pathIn covers name
    have recorded := (covered.mono (List.subset_append_left known [Draft.keyOf name scope])).put
      nested spelled path
    have closing : Encloses (pathIn paths scope name)
        (Eventful.of (·.map .call) (.ok (closingCalls (Draft.keyOf name scope) tree))) := by
      refine encloses_of callsOf_call ?_
      rintro made ⟨⟩ call member key target
      rw [closingCalls_mark _ tree call member] at target
      cases target
      exact ⟨nested, spelled⟩
    have whole := (@encloses_body scene _ _ _ nested spelled (ih (pathIn paths scope name)) {} []
      (statementsOf tree)).andThen closing
    have header : Nests (known ++ [Draft.keyOf name scope]) superclass := by
      refine Draft.nests_of_known fun call member key target => ?_
      obtain ⟨superclass, rfl⟩ := superclassCalls_inherit headed call member
      cases target
      simp
    obtain ⟨nests, final⟩ := whole
      (known ++ [Draft.keyOf name scope] ++ superclass.filterMap Call.opened?) _ body after
      (path.mono (List.subset_append_left _ _)) (recorded.mono (List.subset_append_left _ _)) walked
    refine ⟨⟨fun key around _ within => .inr ?_, Draft.nests_append.mpr ⟨header, nests⟩⟩, ?_⟩
    · cases within
      exact covers
    · simpa [callsOf_cons, Event.calls, Call.opened?] using final

private theorem encloses_events (trees : List Tree) : Encloses [] (eventsOf scene trees) := by
  induction trees with
  | nil => exact encloses_nothing
  | cons tree rest ih =>
    refine Encloses.andThen ?_ ih
    unfold topEvents
    split
    · exact encloses_unit scene.root.depth [] tree
    · refine encloses_of callsOf_call fun made makes call member key target => ?_
      obtain ⟨name, rfl⟩ := topCalls_require makes call member
      cases target

/-- A document that a walk returns was collected by the calls of its events. -/
theorem walk_eq_ok {filename : Option String} {document : Document}
    (success : (walk scene (Draft.empty filename)).result = .ok document) :
    ∃ events paths draft, eventsOf scene scene.root.namedChildren [] = .ok (events, paths) ∧
      (Draft.empty filename).Runs (callsOf events) draft ∧ draft.Enclosed ∧ document = draft.document := by
  obtain ⟨draft, walked, built⟩ := Outcome.bind_result_eq_ok_iff.mp success
  obtain ⟨events, paths, told, run⟩ := walkInto_eq_ok_iff.mp walked
  obtain ⟨nests, _⟩ := encloses_events scene.root.namedChildren [] [] events paths
    (Draft.covers_nil []) (Paths.covered_nil []) told
  exact ⟨events, paths, draft, told, run, run.enclosed (Draft.enclosed_empty filename) (List.nil_subset _) nests,
    Draft.build_eq_ok (Except.mapError_eq_ok_iff.mp built)⟩

end Ruby

/-! ## Both readers -/

/-- A document that is read from a text or from a syntax tree is made of a draft whose units stand in others. -/
theorem Document.Returned.exists_enclosed {document : Document} (returned : document.Returned) :
    ∃ draft : Draft, draft.Enclosed ∧ document = draft.document := by
  cases returned with
  | @read _ filename text _ success =>
    obtain ⟨calls, draft, made, run, _, rfl⟩ := Literate.read_eq_ok_iff.mp success
    exact ⟨draft, run.enclosed (Draft.enclosed_empty filename) (List.nil_subset _) (Literate.callsOf_nests made), rfl⟩
  | walk success =>
    obtain ⟨_, _, draft, _, _, enclosed, rfl⟩ := Ruby.walk_eq_ok success
    exact ⟨draft, enclosed, rfl⟩

/-- In a document that is read from a text or from a syntax tree, every unit stands after the units
around it. -/
theorem Document.Returned.namespaceClosed {document : Document} (returned : document.Returned) :
    document.NamespaceClosed := by
  obtain ⟨draft, enclosed, rfl⟩ := returned.exists_enclosed
  exact enclosed.document_closed

namespace Ruby

/-- A class in a module, which is reopened by its scoped name with a class of its own in it. -/
def reopenedByPath : Scene where
  source := .ofText "module A\n  class B\n  end\nend\nclass A::B\n  class C\n  end\nend\n"
  root := .node { kind := "program", start := 0, stop := 60 }
    [.node { kind := "module", start := 0, stop := 28 }
      [.node { kind := "constant", start := 7, stop := 8, field := some "name" } [],
        .node { kind := "body_statement", start := 11, stop := 24, field := some "body" }
          [.node { kind := "class", start := 11, stop := 24 }
            [.node { kind := "constant", start := 17, stop := 18, field := some "name" } []]]],
      .node { kind := "class", start := 29, stop := 59 }
        [.node { kind := "scope_resolution", start := 35, stop := 39, field := some "name" } [],
          .node { kind := "body_statement", start := 42, stop := 55, field := some "body" }
            [.node { kind := "class", start := 42, stop := 55 }
              [.node { kind := "constant", start := 48, stop := 49, field := some "name" } []]]]]

end Ruby

/-- Both spellings of a nested class are the same unit, and titles open what they go through. -/
theorem Document.Returned.namespaceClosed_of_two_spellings :
    (∃ document, (Ruby.walk Ruby.reopenedByPath (Draft.empty none)).result = .ok document ∧
        document.units.map (·.qualifiedName) = ["A", "A::B", "A::B::C"] ∧ document.NamespaceClosed) ∧
      ∃ document, (Literate.read none "# A::B::C\n# D\n# A").result = .ok document ∧
        document.units.map (·.qualifiedName) = ["A", "A::B", "A::B::C", "D"] ∧
        document.NamespaceClosed := by
  have walks : (Ruby.walk Ruby.reopenedByPath (Draft.empty none)).result.toOption.map
      (fun document => document.units.map (·.qualifiedName)) = some ["A", "A::B", "A::B::C"] := by
    decide +kernel
  have reads : (Literate.read none "# A::B::C\n# D\n# A").result.toOption.map
      (fun document => document.units.map (·.qualifiedName)) = some ["A", "A::B", "A::B::C", "D"] := by
    decide +kernel
  obtain ⟨walked, success, names⟩ := Except.exists_of_toOption walks
  obtain ⟨read, accepted, named⟩ := Except.exists_of_toOption reads
  exact ⟨⟨walked, success, names, Document.Returned.namespaceClosed (.walk success)⟩,
    read, accepted, named, Document.Returned.namespaceClosed (.read accepted)⟩

end LiterateRuby
