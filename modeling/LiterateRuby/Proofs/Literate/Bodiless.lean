import LiterateRuby.Proofs.Literate.MethodHeadings

/-! # Methods that are read again

Under the heading of its unit a list of methods without bodies is read as the methods that its headings say. They are
the same ones exactly if the unit keeps them (`methods_reread`). A name that no title can hold is lost, and so is a
method named `private` before the first section, which makes the methods after it private.
-/

namespace LiterateRuby.Literate

open Text (isBlank allBlank trim trimEnd Trimmed Unbroken)
open Render (textOf spaced)

/-! ## What is written and read -/

def unitHeadings (unit : RubyUnit) (methods : List Method) : List Heading :=
  ⟨1, (unitTitle unit).toList⟩ :: methodHeadings {} methods

/-- The lines of a unit with methods and without declarations. -/
def methodsText (settings : RenderSettings) (unit : RubyUnit) (methods : List Method) : List String :=
  Render.joinSections ([unitHeading unit] :: methodSections settings {} methods)

private theorem map_methodsText (settings : RenderSettings) (unit : RubyUnit) {methods : List Method}
    (bodiless : ∀ method ∈ methods, method.body = "") :
    (methodsText settings unit methods).map String.toList ++ [[]] =
      (unitHeadings unit methods).flatMap fun heading => [heading.line, []] := by
  have own : (unitHeading unit).toList = (⟨1, (unitTitle unit).toList⟩ : Heading).line := by
    simp [unitHeading_eq, Heading.line]
  have joined := Render.joinSections_concat
    (⟨_, List.mem_cons_self, by simp⟩ : ∃ lines ∈ [unitHeading unit] :: methodSections settings {} methods, lines ≠ [])
  have blank : (methodsText settings unit methods).map String.toList ++ [[]] =
      (methodsText settings unit methods ++ [""]).map String.toList := by simp
  rw [blank, methodsText, joined, map_spaced_line own, map_spaced_methodSections settings bodiless, unitHeadings,
    List.flatMap_cons]

private theorem mem_methodHeadings {state : SectionState} {methods : List Method} {heading : Heading}
    (member : heading ∈ methodHeadings state methods) :
    ∃ method ∈ methods, ∃ before, heading ∈ sectionMarks before method ∨ heading = methodHeading before method := by
  induction methods generalizing state with
  | nil => cases member
  | cons method rest ih =>
    rw [methodHeadings] at member
    rcases List.mem_append.mp member with mark | later
    · exact ⟨method, List.mem_cons_self, state, .inl mark⟩
    · rcases List.mem_cons.mp later with own | after
      · exact ⟨method, List.mem_cons_self, _, .inr own⟩
      · obtain ⟨other, listed, found⟩ := ih after
        exact ⟨other, List.mem_cons_of_mem _ listed, found⟩

/-- The headings that are read for methods open no unit, and are those of methods only where methods are written. -/
theorem taken_methodHeadings {state : SectionState} {methods : List Method} {heading : Heading}
    (member : heading ∈ taken (methodHeadings state methods)) :
    heading.level ≠ 1 ∧
      (heading.isMethod = true → ∃ method ∈ methods, heading.title = trim (title method).toList) := by
  obtain ⟨written, listed, found⟩ := List.mem_filterMap.mp member
  obtain ⟨method, among, before, mark | rfl⟩ := mem_methodHeadings listed
  · obtain ⟨level, -, read⟩ := mark_read mark
    obtain rfl := Option.some.inj (read.symm.trans found)
    refine ⟨by omega, fun titled => ?_⟩
    rw [sectionMarks_silent before method written mark] at titled
    cases titled
  · obtain rfl := heading?_of_signs _ found
    exact ⟨(methodLevel_bounds before).1.ne', fun _ => ⟨method, among, rfl⟩⟩

private theorem legibleLines_of_empty {lines : List (List Char)} (empty : ∀ line ∈ lines, line = []) :
    LegibleLines lines := by
  have blank : Text.trimStart (Text.unlines lines) = [] :=
    Text.trimStart_unlines_of_all fun line member => by rw [empty line member]; rfl
  intro line member
  rw [trim, blank] at member
  rw [List.mem_singleton.mp member]
  exact trivial

/-- The name of a unit is not longer than the title that names it. -/
theorem length_unitKey_le_title (title : List Char) : (unitKey title).toList.length ≤ title.length := by
  refine (length_unitKey_le title).trans ?_
  cases found : kindInTitle? title with
  | none => exact le_rfl
  | some head => exact (length_of_kindInTitle? found).le

/-- A method without a body as a unit can have it: in a singleton block it is public. -/
structure Bodiless (method : Method) : Prop where
  flawless : method.flaw? = none
  body : method.body = ""
  block : method.binding = .inSingleton → method.visibility = .pub

private theorem Bodiless.named {method : Method} (bodiless : Bodiless method) : method.name ≠ "" :=
  (Method.flaw?_eq_none_iff.mp bodiless.flawless).1

/-- A section that says its method can be read. -/
theorem Bodiless.flawless_entryOf {method : Method} (bodiless : Bodiless method) (lines : List (List Char)) :
    (entryOf ⟨method.name, method.parameters, titledBinding method.binding⟩ lines).Flawless := by
  obtain ⟨named, receives, forwards⟩ := Method.flaw?_eq_none_iff.mp bodiless.flawless
  refine ⟨named, receives.trans ?_, forwards⟩
  show _ ↔ titledBinding method.binding = .onReceiver
  cases method.binding <;> simp [titledBinding]

/-- The title of a unit says a name that is no longer than that of the unit. -/
theorem length_unitKey_unitTitle {unit : RubyUnit} (named : unit.name ≠ "")
    (unindented : Text.Unindented unit.qualifiedName.toList) :
    (unitKey (trimEnd (unitTitle unit).toList)).toList.length ≤ unit.qualifiedName.toList.length := by
  cases kind : unit.kind with
  | cls =>
    have whole : unitTitle unit = unit.qualifiedName := by rw [unitTitle, kind, RubyUnit.qualifiedName]
    rw [whole]
    exact (length_unitKey_le_title _).trans (Text.trimEnd_starts _).length_le
  | mod =>
    obtain ⟨c, rest, starts, shown⟩ := qualifiedName_starts named unindented
    have filled : allBlank unit.qualifiedName.toList = false := by simp [starts, allBlank, shown]
    have given : trimmedText unit.qualifiedName.toList ≠ "" := by
      rw [trimmedText, ne_eq, String.ofList_eq_empty_iff]
      exact Text.trim_ne_nil (starts ▸ List.mem_cons_self) shown
    have trimmed : Trimmed (trimmedText unit.qualifiedName.toList).toList := by
      rw [trimmedText, String.toList_ofList]
      exact ⟨Text.unindented_trim _, fun c => Text.shown_of_getLast?_trim⟩
    have whole : trimEnd (unitTitle unit).toList =
        ("module " ++ trimmedText unit.qualifiedName.toList).toList := by
      have title : unitTitle unit = "module " ++ unit.qualifiedName := by rw [unitTitle, kind, RubyUnit.qualifiedName]
      rw [title, String.toList_append, String.toList_append, Text.trimEnd_append filled, trimmedText, trim,
        Text.trimStart_eq_self unindented]
      exact congrArg ("module ".toList ++ ·) String.toList_ofList.symm
    have least := length_unitKey_le (trimEnd (unitTitle unit).toList)
    rw [whole, kindInTitle?_module given trimmed] at least
    rw [whole]
    refine least.trans ?_
    rw [Option.map_some, Option.getD_some, trimmedText, String.toList_ofList]
    exact (Text.trim_within _).length_le

/-- The title of a unit that says a name inside the unit says that of the unit. -/
theorem unitKey_of_around {unit : RubyUnit} (named : unit.name ≠ "")
    (unindented : Text.Unindented unit.qualifiedName.toList)
    (around : Around unit.qualifiedName (unitKey (trimEnd (unitTitle unit).toList))) :
    unitKey (trimEnd (unitTitle unit).toList) = unit.qualifiedName := by
  have short := length_unitKey_unitTitle named unindented
  rcases around with same | ⟨rest, longer⟩
  · exact same
  · rw [longer] at short
    simp only [String.toList_append, List.length_append] at short
    have signs : "::".toList.length = 2 := rfl
    omega

section Reread

variable [DataFormat] {unit : RubyUnit} (named : unit.name ≠ "")
  (unindented : Text.Unindented unit.qualifiedName.toList)
  {methods : List Method} (bodiless : ∀ method ∈ methods, Bodiless method) {settings : RenderSettings}
include named unindented bodiless

/-- The sections of a unit with methods and nothing else, if its titles stand on one line each. -/
theorem sectionsOf_methodsText (unbroken : Unbroken (unitTitle unit).toList)
    (titles : ∀ method ∈ methods, Unbroken (title method).toList) :
    ∃ opening rest, sectionsOf (textOf (methodsText settings unit methods)) = opening :: rest ∧
      opening.heading = ⟨1, trimEnd (unitTitle unit).toList⟩ ∧
      rest.map (·.heading) = taken (methodHeadings {} methods) ∧
      ((∀ method ∈ methods, HeldInTitle method) → ∀ part ∈ opening :: rest, ∀ text ∈ part.text, text = []) := by
  obtain ⟨c, title, starts, shown⟩ := unitTitle_starts named unindented
  have own : heading? (Heading.line ⟨1, (unitTitle unit).toList⟩) =
      some ⟨1, trimEnd (unitTitle unit).toList⟩ := by
    rw [starts]
    show heading? (List.replicate 1 '#' ++ ' ' :: c :: title) = _
    rw [heading?, headingParts?_signs (by decide) (by decide) shown]
    rfl
  obtain ⟨headings, texts⟩ := sectionsOf_written
    (map_methodsText settings unit fun method member => (bodiless method member).body)
    (by rw [unitHeadings, starts]; rfl) shown (fun heading member => by
      rcases List.mem_cons.mp member with rfl | inner
      · exact ⟨le_rfl, unbroken⟩
      · obtain ⟨method, listed, before, mark | rfl⟩ := mem_methodHeadings inner
        · obtain ⟨level, line, -⟩ := mark_read mark
          exact ⟨by omega, line⟩
        · exact ⟨(methodLevel_bounds before).1.le, titles method listed⟩)
  rw [unitHeadings, taken, List.filterMap_cons, own] at headings
  obtain ⟨opening, rest, parts, first, others⟩ := List.map_eq_cons_iff.mp headings
  refine ⟨opening, rest, parts, first, others, fun held => parts ▸ texts fun heading member => ?_⟩
  rcases List.mem_cons.mp member with rfl | inner
  · simp [own]
  · obtain ⟨method, listed, before, mark | rfl⟩ := mem_methodHeadings inner
    · simp [(mark_read mark).2.2]
    · simp [(held method listed).heading?_eq (bodiless method listed).named]

/-- A unit with methods and nothing else is read as one stretch if its titles stand on one line each, and its methods
are those that its headings say. -/
theorem methods_of_methodsText (unbroken : Unbroken (unitTitle unit).toList)
    (titles : ∀ method ∈ methods, Unbroken (title method).toList) {front : FrontMatter} {part : Section}
    (splits : FrontMatter.split (trim (Text.unixLines (textOf (methodsText settings unit methods)).toList)) = .ok front)
    (headed : (sectionsOf (textOf (methodsText settings unit methods))).head? = some part)
    (first : part.heading.level = 1) {document : Document}
    (success : (read none (textOf (methodsText settings unit methods))).result = .ok document) {twin : RubyUnit}
    (member : twin ∈ document.units) (same : twin.qualifiedName = unit.qualifiedName) :
    unitKey (trimEnd (unitTitle unit).toList) = unit.qualifiedName ∧
      (twin.methods.map Method.profile = methods.map Method.profile ↔ TitlesHeld {} methods) := by
  obtain ⟨opening, rest, parts, heading, others, -⟩ :=
    @sectionsOf_methodsText _ unit named unindented methods bodiless settings unbroken titles
  have inner : ∀ other ∈ rest, other.heading.level ≠ 1 := fun other listed =>
    (taken_methodHeadings (others ▸ List.mem_map_of_mem listed)).1
  have single : (stretches (sectionsOf (textOf (methodsText settings unit methods)))).2 =
      [⟨trimEnd (unitTitle unit).toList, rest⟩] := by
    rw [parts, stretches, heading, if_pos rfl, stretches_of_unheaded inner]
  obtain ⟨stretch, listed, around⟩ := around_of_read splits headed first success member
  rw [single, List.mem_singleton] at listed
  rw [listed, same] at around
  have key := unitKey_of_around named unindented around
  have given := methods_of_read success member
  rw [stretchesOf_of_headed splits headed first, single, same,
    List.filter_cons_of_pos (by simp [Stretch.unit, key]), List.filter_nil, List.flatMap_singleton,
    Stretch.methods] at given
  have lift (list : List Method) : list.map (fun method => (.ok method.profile : Except Parameter.Flaw Profile)) =
      (list.map Method.profile).map .ok := by simp
  have made : twin.methods.map (fun method => (.ok method.profile : Except Parameter.Flaw Profile)) =
      profilesOf [] (taken (methodHeadings {} methods)) := by
    rw [← others, ← map_profile_methodsOf, ← given, List.map_map]
    rfl
  refine ⟨key, ?_⟩
  rw [← profilesOf_eq_iff (fun method among => ⟨(bodiless method among).named, (bodiless method among).block⟩)
    aligned_nil, ← made, lift, lift]
  exact (List.map_injective_iff.mpr fun _ _ => Except.ok.inj).eq_iff.symm

/-- The sections of a unit with methods and nothing else can be read if its title gives each segment of its name and
the titles of its methods say them. -/
theorem legible_methodsText (unbroken : Unbroken (unitTitle unit).toList)
    (whole : "" ∉ unitPath (trimEnd (unitTitle unit).toList))
    (titles : ∀ method ∈ methods, Unbroken (title method).toList ∧ HeldInTitle method) :
    Legible (sectionsOf (textOf (methodsText settings unit methods))) := by
  obtain ⟨opening, rest, parts, heading, others, texts⟩ :=
    @sectionsOf_methodsText _ unit named unindented methods bodiless settings unbroken fun method member =>
      (titles method member).1
  have empty := texts fun method member => (titles method member).2
  have inner (part : Section) (listed : part ∈ rest) := taken_methodHeadings (others ▸ List.mem_map_of_mem listed)
  have single : (stretches (opening :: rest)).2 = [⟨trimEnd (unitTitle unit).toList, rest⟩] := by
    rw [stretches, heading, if_pos rfl, stretches_of_unheaded fun part listed => (inner part listed).1]
  rw [parts]
  constructor
  · intro part member
    refine ⟨fun level => ?_, fun titled => ?_, fun _ => legibleLines_of_empty (empty part member)⟩
    · rcases List.mem_cons.mp member with rfl | listed
      · rwa [heading]
      · exact absurd level (inner part listed).1
    · rcases List.mem_cons.mp member with rfl | listed
      · rw [heading] at titled
        cases titled
      · obtain ⟨method, among, same⟩ := (inner part listed).2 titled
        have held := (titles method among).2
        rw [same, (held.trimmed (bodiless method among).named).1.trim_eq]
        exact ⟨_, held, (bodiless method among).flawless_entryOf part.text⟩
  · intro first one second other _
    rw [single, List.mem_singleton] at one other
    rw [one, other]

end Reread

/-- A unit whose methods come back from their headings: its heading names it again, with no segment left empty, each
method is said by a title on one line, and no title before the first section is that of a section. -/
structure KeepsMethods (unit : RubyUnit) (methods : List Method) : Prop where
  named : NamesAgain unit
  whole : "" ∉ unitPath (trimEnd (unitTitle unit).toList)
  titles : ∀ method ∈ methods, Unbroken (title method).toList ∧ HeldInTitle method
  leading : ∀ method ∈ leading methods, Unsectioned method

/-- Titles on one line that say their methods leave one thing open: which of them are read as sections. -/
theorem keepsMethods_iff {unit : RubyUnit} (bare : ∀ name ∈ unit.path, BareName name) {methods : List Method}
    (closed : ∀ method ∈ methods, ClosedTitle method ∧ Unbroken (title method).toList) :
    KeepsMethods unit methods ↔ ∀ method ∈ leading methods, Unsectioned method := by
  refine ⟨KeepsMethods.leading, fun apart => ⟨namesAgain_of_bare bare, ?_, fun method member => ?_, apart⟩⟩
  · rw [Text.trimEnd_eq_self (titled_unitTitle bare).1.2, unitPath_unitTitle bare]
    exact fun empty => (bare "" empty).given rfl
  · obtain ⟨held, line⟩ := closed method member
    refine ⟨line, ?_⟩
    rw [HeldInTitle, toList_title, readTitle_of_name (unopened_definedName held) (trimmed_definedName held).1
      held.parameters, bindingOf_definedName held, String.ofList_toList]

private theorem title_of_profile {first second : Method} (same : first.profile = second.profile) :
    title first = title second := by
  simp only [Method.profile, Profile.mk.injEq] at same
  rw [title, title, Render.definedName, Render.definedName, same.1, same.2.1, same.2.2.2]

private theorem unbroken_unitTitle {unit : RubyUnit} (unbroken : Unbroken unit.qualifiedName.toList) :
    Unbroken (unitTitle unit).toList := by
  unfold unitTitle
  cases unit.kind with
  | cls => exact unbroken
  | mod =>
    rw [String.toList_append, Text.unbroken_append]
    exact ⟨by simp, unbroken⟩

/-- What becomes of the methods of a unit when their headings are written under that of the unit and read again. All of
them come back, with their names, bindings, visibilities and parameters, exactly if the unit keeps its methods. Where
names and defaults are those that a title on one line can hold, they do exactly if no title before the first section
is that of a section. -/
theorem methods_reread [DataFormat] {document : Document} (returned : document.Returned) (settings : RenderSettings) :
    ∀ unit ∈ document.units, ∀ methods : List Method, (∀ method ∈ methods, Bodiless method) →
      ((∃ reread, (read none (textOf (methodsText settings unit methods))).result = .ok reread ∧
          ∃ twin ∈ reread.units, twin.qualifiedName = unit.qualifiedName ∧
            twin.methods.map Method.profile = methods.map Method.profile) ↔ KeepsMethods unit methods) ∧
      ((∀ name ∈ unit.path, BareName name) →
        (∀ method ∈ methods, ClosedTitle method ∧ Unbroken (title method).toList) →
          (KeepsMethods unit methods ↔ ∀ method ∈ leading methods, Unsectioned method)) := by
  intro unit member methods bodiless
  refine ⟨?_, fun bare closed => keepsMethods_iff bare closed⟩
  have named := (RubyUnit.flaw?_eq_none_iff.mp (returned.flawless.2 unit member)).1.1
  have unindented := returned.unindented unit member
  have starts : (methodsText settings unit methods).head? = some (unitHeading unit) :=
    Render.head?_joinSections (by simp) _
  have filled : methodsText settings unit methods ≠ [] := fun empty => by
    rw [empty] at starts
    cases starts
  have whole : textOf (methodsText settings unit methods) =
      "\n".intercalate (methodsText settings unit methods) ++ "\n" := by
    rw [textOf, if_neg (by simpa using filled)]
  obtain ⟨front, part, splits, metadata, headed, level, titled⟩ :=
    @exists_split_headed _ [] List.nodup_nil (by simp) unit _ starts named unindented _ whole
  have plain : front.metadata = [] := metadata
  have reads := exists_read_iff_of_plain splits headed level plain
  constructor
  · rintro ⟨reread, success, twin, among, same, profiles⟩
    obtain ⟨name, own⟩ := unbroken_of_read splits headed level success among
    have unbroken := unbroken_unitTitle (same ▸ name)
    have titles : ∀ method ∈ methods, Unbroken (title method).toList := by
      intro method listed
      obtain ⟨other, within, twins⟩ := List.mem_map.mp (profiles ▸ List.mem_map_of_mem listed)
      exact title_of_profile twins ▸ own other within
    obtain ⟨key, kept⟩ :=
      methods_of_methodsText named unindented bodiless unbroken titles splits headed level success among same
    obtain ⟨held, apart⟩ := (titlesHeld_iff methods).mp (kept.mp profiles)
    have legible := (reads.mp ⟨reread, success⟩).each part (List.mem_of_mem_head? headed)
    exact ⟨⟨unbroken, key⟩, titled unbroken ▸ legible.unit level, fun method listed =>
      ⟨titles method listed, held method listed⟩, apart⟩
  · intro keeps
    have unbroken := keeps.named.unbroken
    obtain ⟨reread, success⟩ :=
      reads.mpr (legible_methodsText named unindented bodiless unbroken keeps.whole keeps.titles)
    obtain ⟨rest, parts⟩ := List.head?_eq_some_iff.mp headed
    have opened : ⟨part.heading.title, (stretches rest).1⟩ ∈
        (stretches (sectionsOf (textOf (methodsText settings unit methods)))).2 := by
      rw [parts, stretches, if_pos level]
      exact List.mem_cons_self
    obtain ⟨twin, among, own⟩ := exists_unit_of_stretch splits headed level success opened
    have same : twin.qualifiedName = unit.qualifiedName := by
      rw [own, ← keeps.named.named, ← titled unbroken]
      rfl
    obtain ⟨-, kept⟩ := methods_of_methodsText named unindented bodiless unbroken
      (fun method listed => (keeps.titles method listed).1) splits headed level success among same
    exact ⟨reread, success, twin, among, same, kept.mpr ((titlesHeld_iff methods).mpr
      ⟨fun method listed => (keeps.titles method listed).2, keeps.leading⟩)⟩

/-- A class with a method named like a visibility and another method. -/
def privateNamed : Ruby.Scene where
  source := .ofText "class A\n  def private\n  end\n\n  def x\n  end\nend\n"
  root := .node { kind := "program", start := 0, stop := 47 }
    [.node { kind := "class", start := 0, stop := 46 }
      [.node { kind := "constant", start := 6, stop := 7, field := some "name" } [],
        .node { kind := "body_statement", start := 10, stop := 42, field := some "body" }
          [.node { kind := "method", start := 10, stop := 27 }
            [.node { kind := "identifier", start := 14, stop := 21, field := some "name" } []],
            .node { kind := "method", start := 31, stop := 42 }
              [.node { kind := "identifier", start := 35, stop := 36, field := some "name" } []]]]]

/-- The class loses its method `private`, and keeps `x` if this is its only method. -/
theorem methods_reread_of_privateNamed :
    ∃ document, (Ruby.walk privateNamed (Draft.empty none)).result = .ok document ∧
      ∃ unit ∈ document.units, unit.qualifiedName = "A" ∧
        unit.methods.map Method.profile = [⟨"private", .onInstance, .pub, []⟩, ⟨"x", .onInstance, .pub, []⟩] ∧
        (∀ method ∈ unit.methods, Bodiless method) ∧
        textOf (methodsText .default unit unit.methods) = "# A\n\n## private\n\n## x\n" ∧
        (¬∃ reread, (read none "# A\n\n## private\n\n## x\n").result = .ok reread ∧
          ∃ twin ∈ reread.units, twin.qualifiedName = "A" ∧
            twin.methods.map Method.profile = unit.methods.map Method.profile) ∧
        ∃ reread, (read none "# A\n\n## x\n").result = .ok reread ∧
          ∃ twin ∈ reread.units, twin.qualifiedName = "A" ∧
            twin.methods.map Method.profile = [⟨"x", .onInstance, .pub, []⟩] := by
  have walks : (Ruby.walk privateNamed (Draft.empty none)).result.toOption.map (fun document =>
      document.units.map fun unit => (unit.path, unit.kind, unit.methods)) =
        some [(["A"], .cls,
          [⟨"private", [], "", .pub, .onInstance, none⟩, ⟨"x", [], "", .pub, .onInstance, none⟩])] := by
    decide +kernel
  obtain ⟨document, success, units⟩ := Except.exists_of_toOption walks
  obtain ⟨unit, others, listed, held, -⟩ := List.map_eq_cons_iff.mp units
  have member : unit ∈ document.units := by rw [listed]; exact List.mem_cons_self
  rw [Prod.mk.injEq, Prod.mk.injEq] at held
  obtain ⟨path, kind, methods⟩ := held
  have named : unit.qualifiedName = "A" := by rw [RubyUnit.qualifiedName, path]; rfl
  have heading : unitHeading unit = "# A" := by
    simp only [unitHeading, kind, path]
    rfl
  have bare : ∀ name ∈ unit.path, BareName name := by
    rw [path]
    exact fun name among => List.mem_singleton.mp among ▸ bareName_of_shown (by decide) (by simp; decide)
  have bodiless : ∀ method ∈ unit.methods, Bodiless method := by
    rw [methods]
    simp only [List.mem_cons, List.not_mem_nil, or_false, forall_eq_or_imp, forall_eq]
    exact ⟨⟨by decide, rfl, fun _ => rfl⟩, ⟨by decide, rfl, fun _ => rfl⟩⟩
  have closed : ∀ method ∈ unit.methods, ClosedTitle method ∧ Unbroken (title method).toList := by
    rw [methods]
    simp only [List.mem_cons, List.not_mem_nil, or_false, forall_eq_or_imp, forall_eq]
    have line {cs : List Char} (all : cs.all (!isBlank ·) = true) : Unbroken cs :=
      Text.unbroken_of_shown (Text.shown_of_all all)
    exact ⟨⟨⟨by decide, by decide +kernel, by decide, by decide, by decide, by decide +kernel⟩, line (by decide)⟩,
      ⟨⟨by decide, by decide +kernel, by decide, by decide, by decide, by decide +kernel⟩, line (by decide)⟩⟩
  have whole : textOf (methodsText .default unit unit.methods) = "# A\n\n## private\n\n## x\n" := by
    rw [methodsText, heading, methods]
    decide +kernel
  have single : textOf (methodsText .default unit (unit.methods.drop 1)) = "# A\n\n## x\n" := by
    rw [methodsText, heading, methods]
    decide +kernel
  have less : ∀ method ∈ unit.methods.drop 1, method ∈ unit.methods := fun method => List.mem_of_mem_drop
  obtain ⟨both, reserved⟩ := methods_reread (.walk success) .default unit member unit.methods bodiless
  obtain ⟨one, plain⟩ := methods_reread (.walk success) .default unit member (unit.methods.drop 1)
    fun method among => bodiless method (less method among)
  rw [whole, named] at both
  rw [single, named] at one
  refine ⟨document, success, unit, member, named, by rw [methods]; rfl, bodiless, whole, fun kept => ?_, ?_⟩
  · have apart := (reserved bare closed).mp (both.mp kept)
    rw [methods] at apart
    exact absurd (apart _ List.mem_cons_self).1 (by decide +kernel)
  · have apart : ∀ method ∈ leading (unit.methods.drop 1), Unsectioned method := by
      rw [methods]
      intro method among
      rw [show method = ⟨"x", [], "", .pub, .onInstance, none⟩ from List.mem_singleton.mp among]
      exact ⟨by decide +kernel, by decide⟩
    obtain ⟨reread, reads, twin, inside, same, profiles⟩ :=
      one.mpr ((plain bare fun method among => closed method (less method among)).mpr apart)
    exact ⟨reread, reads, twin, inside, same, profiles.trans (by rw [methods]; rfl)⟩

end LiterateRuby.Literate
