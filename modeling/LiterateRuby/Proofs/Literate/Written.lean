import LiterateRuby.Proofs.Literate.Declaration
import LiterateRuby.Proofs.Literate.UnitTitle

/-! # The sections of a written text

A unit is written as a section with its declarations and a section for each method, and the headings of
visibilities and singleton blocks between them (`unitParts`). `sections_unitLines` says that exactly these
sections are found again when the lines are scanned: nothing of a declaration or a body is taken for a
heading, and no heading is lost in a fenced block.
-/

namespace LiterateRuby.Render

/-- Sections with a blank line after each one that has lines. -/
def spaced (sections : List (List String)) : List String :=
  (sections.filter (!·.isEmpty)).flatMap (· ++ [""])

@[simp] theorem spaced_nil : spaced [] = [] := rfl

theorem spaced_cons {lines : List String} (given : lines ≠ []) (rest : List (List String)) :
    spaced (lines :: rest) = lines ++ [""] ++ spaced rest := by
  simp [spaced, given]

/-- Joined sections, with a blank line after the last one. -/
theorem joinSections_concat {sections : List (List String)} (filled : ∃ lines ∈ sections, lines ≠ []) :
    joinSections sections ++ [""] = spaced sections := by
  have kept : sections.filter (!·.isEmpty) ≠ [] := by
    obtain ⟨lines, member, given⟩ := filled
    exact List.ne_nil_of_mem (List.mem_filter.mpr ⟨member, by simpa using given⟩)
  unfold joinSections spaced
  generalize sections.filter (!·.isEmpty) = shown at kept
  induction shown with
  | nil => exact absurd rfl kept
  | cons first rest ih =>
    cases rest with
    | nil => simp
    | cons next following =>
      have later := ih (by simp)
      simp only [List.intersperse, List.flatten_cons, List.flatMap_cons, List.append_assoc] at later ⊢
      rw [later]

private theorem joinSections_eq_nil {sections : List (List String)} (empty : ∀ lines ∈ sections, lines = []) :
    joinSections sections = [] := by
  have kept : sections.filter (!·.isEmpty) = [] := by
    rw [List.filter_eq_nil_iff]
    intro lines member
    simp [empty lines member]
  rw [joinSections, kept]
  rfl

theorem joinSections_ne_nil {sections : List (List String)} (nonempty : ∃ lines ∈ sections, lines ≠ []) :
    joinSections sections ≠ [] := by
  intro empty
  have joined := congrArg List.length (joinSections_concat nonempty)
  obtain ⟨lines, member, given⟩ := nonempty
  have kept : lines ∈ sections.filter (!·.isEmpty) := List.mem_filter.mpr ⟨member, by simpa using given⟩
  obtain ⟨before, after, split⟩ := List.append_of_mem kept
  have filled : 0 < lines.length := List.length_pos_iff.mpr given
  rw [empty, spaced, split] at joined
  simp only [List.flatMap_append, List.flatMap_cons, List.length_append, List.nil_append,
    List.length_singleton] at joined
  omega

/-- Sections that are joined first are spaced as they are by themselves. -/
theorem spaced_joinSections (groups : List (List (List String))) :
    spaced (groups.map joinSections) = groups.flatMap spaced := by
  induction groups with
  | nil => rfl
  | cons group rest ih =>
    rw [List.map_cons, List.flatMap_cons, ← ih]
    by_cases filled : ∃ lines ∈ group, lines ≠ []
    · have joined := joinSections_concat filled
      rw [spaced_cons (joinSections_ne_nil filled), joined]
    · have empty : ∀ lines ∈ group, lines = [] := by
        intro lines member
        by_contra given
        exact filled ⟨lines, member, given⟩
      have kept : spaced group = [] := by
        unfold spaced
        rw [List.filter_eq_nil_iff.mpr]
        · rfl
        · intro lines member
          simp [empty lines member]
      rw [joinSections_eq_nil empty, kept]
      rfl

theorem joinSections_eq_nil_iff {sections : List (List String)} :
    joinSections sections = [] ↔ ∀ lines ∈ sections, lines = [] := by
  constructor
  · intro empty lines member
    by_contra given
    exact joinSections_ne_nil ⟨lines, member, given⟩ empty
  · exact joinSections_eq_nil

end LiterateRuby.Render

namespace LiterateRuby.Literate

open Text (isBlank Trimmed Unbroken)
open Render (spaced)

/-! ## Parts -/

/-- A heading with lines under it and a blank line after them. -/
def part (level : Nat) (title : String) (lines : List String) : Section :=
  ⟨⟨level, title.toList⟩, lines.map String.toList ++ [[]]⟩

theorem sections_content (texts : List (List Char)) (rest : List Line) :
    sections (texts.map .content ++ rest) = (texts ++ (sections rest).1, (sections rest).2) := by
  induction texts with
  | nil => rfl
  | cons text more ih => rw [List.map_cons, List.cons_append, sections, ih]; rfl

private theorem map_spaced_cons {lines : List String} (given : lines ≠ []) (rest : List (List String))
    (more : List (List Char)) :
    (spaced (lines :: rest)).map String.toList ++ more =
      (lines ++ [""]).map String.toList ++ ((spaced rest).map String.toList ++ more) := by
  rw [Render.spaced_cons given, List.map_append, List.append_assoc]

/-- A line that is written for a heading. -/
structure HeadingLine (level : Nat) (title : String) (line : String) : Prop where
  least : 1 ≤ level
  most : level ≤ 3
  trimmed : Trimmed title.toList
  given : title.toList ≠ []
  unbroken : Unbroken title.toList
  written : line.toList = List.replicate level '#' ++ ' ' :: title.toList

/-- A heading and inert lines are read as they are, up to where the next heading stands. -/
theorem sections_part {level : Nat} {title line : String} (head : HeadingLine level title line)
    {lines : List String} (inert : Inert (lines.map String.toList)) {rest : List (List Char)}
    (ends : (sections (scan false rest)).1 = []) :
    sections (scan false ((line :: lines ++ [""]).map String.toList ++ rest)) =
      ([], part level title lines :: (sections (scan false rest)).2) := by
  have plain : isFence line.toList = false := by
    rw [head.written]
    exact isFence_signs head.least title.toList
  have found : heading? line.toList = some ⟨level, title.toList⟩ := by
    rw [head.written]
    exact heading?_signs head.least head.most head.trimmed head.given
  have below : Inert ((lines ++ [""]).map String.toList) := by
    rw [List.map_append]
    exact inert.append inert_blank
  rw [List.cons_append, List.map_cons, List.cons_append, scan_of_heading plain found, below, sections,
    sections_content, ends, List.append_nil, List.map_append]
  rfl

/-! ## Methods -/

/-- The title of the heading that is written before a method, if one is. -/
def sectionTitle? (state : SectionState) (method : Method) : Option String :=
  if method.binding = .inSingleton then if state.inBlock then none else some "class << self"
  else if state.inBlock || method.visibility != state.active then some method.visibility.keyword
  else none

def nextState (state : SectionState) (method : Method) : SectionState := (sectionHeadings state method).2

private theorem sectionHeadings_eq (state : SectionState) (method : Method) :
    (sectionHeadings state method).1 = (sectionTitle? state method).toList.map ("## " ++ ·) := by
  unfold sectionHeadings sectionTitle?
  split_ifs <;> rfl

def methodLevel (state : SectionState) : Nat := if state.inSection then 3 else 2

def methodParts (settings : RenderSettings) (state : SectionState) : List Method → List Section
  | [] => []
  | method :: rest =>
    (sectionTitle? state method).toList.map (fun title => part 2 title []) ++
      part (methodLevel (nextState state method)) (title method) (bodyLines settings method) ::
        methodParts settings (nextState state method) rest

/-- A method that the notation can hold. -/
structure PlainMethod (method : Method) : Prop where
  titled : PlainTitle method
  body : PlainBody method.body
  /-- No method is named like a visibility, in any letter case. -/
  unreserved : Visibility.ofText? method.name = none
  /-- A singleton block has no section for other visibilities. -/
  block : method.binding = .inSingleton → method.visibility = .pub

theorem methodSections_cons (settings : RenderSettings) (state : SectionState) (method : Method)
    (rest : List Method) :
    methodSections settings state (method :: rest) =
      (sectionTitle? state method).toList.map (fun title => ["## " ++ title]) ++
        (((if (nextState state method).inSection then "###" else "##") ++ " " ++ title method) ::
            bodyLines settings method) ::
          methodSections settings (nextState state method) rest := by
  rw [methodSections]
  dsimp only
  rw [sectionHeadings_eq, List.map_map]
  rfl

theorem headingLine_section {state : SectionState} {method : Method} {title : String}
    (shown : sectionTitle? state method = some title) : HeadingLine 2 title ("## " ++ title) := by
  have keyword (visibility : Visibility) : Trimmed visibility.keyword.toList ∧
      visibility.keyword.toList ≠ [] ∧ Unbroken visibility.keyword.toList := by
    have letters : ∀ c ∈ visibility.keyword.toList, isBlank c = false :=
      Text.shown_of_all (by cases visibility <;> decide)
    refine ⟨Text.trimmed_of_shown letters, ?_, Text.unbroken_of_shown letters⟩
    cases visibility <;> decide
  have single : Trimmed "class << self".toList ∧ "class << self".toList ≠ [] ∧
      Unbroken "class << self".toList := by
    refine ⟨⟨?_, ?_⟩, by decide, by simp⟩ <;> rintro c ⟨⟩ <;> decide
  have all : Trimmed title.toList ∧ title.toList ≠ [] ∧ Unbroken title.toList := by
    unfold sectionTitle? at shown
    split_ifs at shown
    · cases shown
      exact single
    · cases shown
      exact keyword method.visibility
  exact ⟨by decide, by decide, all.1, all.2.1, all.2.2, by simp⟩

theorem headingLine_method {method : Method} (plain : PlainTitle method) (state : SectionState) :
    HeadingLine (methodLevel state) (title method)
      ((if state.inSection then "###" else "##") ++ " " ++ title method) := by
  obtain ⟨trimmed, given, unbroken⟩ := title_line plain
  unfold methodLevel
  cases state.inSection with
  | true => exact ⟨by decide, by decide, trimmed, given, unbroken, by simp⟩
  | false => exact ⟨by decide, by decide, trimmed, given, unbroken, by simp⟩

/-- The parts of methods are found in their lines. -/
theorem sections_methodSections {settings : RenderSettings} {methods : List Method}
    (plain : ∀ method ∈ methods, PlainMethod method) (state : SectionState) {rest : List (List Char)}
    (ends : (sections (scan false rest)).1 = []) :
    sections (scan false ((spaced (methodSections settings state methods)).map String.toList ++ rest)) =
      ([], methodParts settings state methods ++ (sections (scan false rest)).2) := by
  induction methods generalizing state with
  | nil =>
    rw [methodSections, Render.spaced_nil, List.map_nil, List.nil_append, methodParts, List.nil_append, ← ends]
  | cons method more ih =>
    have held := plain method List.mem_cons_self
    have later := ih (fun other member => plain other (List.mem_cons_of_mem _ member)) (nextState state method)
    have body := sections_part (headingLine_method held.titled (nextState state method))
      (@PlainBody.inert settings method held.body) (congrArg Prod.fst later)
    rw [later] at body
    rw [methodSections_cons, methodParts]
    cases shown : sectionTitle? state method with
    | none =>
      rw [Option.toList_none, List.map_nil, List.nil_append, List.map_nil, List.nil_append,
        map_spaced_cons (List.cons_ne_nil _ _)]
      exact body
    | some title =>
      have before := @sections_part _ _ _ (headingLine_section shown) [] inert_nil _ (congrArg Prod.fst body)
      rw [body] at before
      simp only [Option.toList_some, List.map_cons, List.map_nil, List.singleton_append]
      rw [map_spaced_cons (List.cons_ne_nil _ _), map_spaced_cons (List.cons_ne_nil _ _)]
      exact before

/-! ## Units -/

/-- Whether a character may stand in a segment of a unit's name. -/
def isSegmentChar (c : Char) : Bool :=
  isCapital c || ('a' ≤ c && c ≤ 'z') || ('0' ≤ c && c ≤ '9') || c == '_'

/-- A name of letters, digits and underscores that starts with a capital letter. -/
structure SegmentName (name : String) : Prop where
  capital : ∃ c rest, name.toList = c :: rest ∧ isCapital c = true
  each : ∀ c ∈ name.toList, isSegmentChar c = true

private theorem segmentName_iff {name : String} :
    SegmentName name ↔ name.toList.head?.any isCapital = true ∧ name.toList.all isSegmentChar = true := by
  rw [List.all_eq_true, Option.any_eq_true]
  constructor
  · rintro ⟨⟨c, rest, starts, capital⟩, each⟩
    exact ⟨⟨c, by rw [starts]; rfl, capital⟩, each⟩
  · rintro ⟨⟨c, head, capital⟩, each⟩
    obtain ⟨rest, starts⟩ := List.head?_eq_some_iff.mp head
    exact ⟨⟨c, rest, starts, capital⟩, each⟩

instance (name : String) : Decidable (SegmentName name) := decidable_of_iff _ segmentName_iff.symm

/-- A unit that the notation can hold, its superclass, mixins and aliases apart. -/
structure PlainUnit (unit : RubyUnit) : Prop where
  path : ∀ segment ∈ unit.path, SegmentName segment
  declarations : PlainDeclarations unit
  methods : ∀ method ∈ unit.methods, PlainMethod method

theorem isSegmentChar_codes {c : Char} (allowed : isSegmentChar c = true) :
    48 ≤ c.toNat ∧ c.toNat ≤ 122 ∧ c.toNat ≠ 58 := by
  simp only [isSegmentChar, isCapital, Bool.or_eq_true, Bool.and_eq_true, decide_eq_true_eq, Char.le_def,
    UInt32.le_iff_toNat_le, beq_iff_eq] at allowed
  rcases allowed with ((capital | small) | digit) | underscore
  · have least : 65 ≤ c.toNat := capital.1
    have most : c.toNat ≤ 90 := capital.2
    omega
  · have least : 97 ≤ c.toNat := small.1
    have most : c.toNat ≤ 122 := small.2
    omega
  · have least : 48 ≤ c.toNat := digit.1
    have most : c.toNat ≤ 57 := digit.2
    omega
  · rw [underscore]
    decide

private theorem shown_of_isSegmentChar {c : Char} (allowed : isSegmentChar c = true) : isBlank c = false := by
  obtain ⟨least, most, _⟩ := isSegmentChar_codes allowed
  exact Text.shown_of_codes (by omega) (by omega)

private theorem SegmentName.bare {name : String} (named : SegmentName name) : BareName name := by
  refine bareName_of_shown ?_ fun c member => ?_
  · obtain ⟨c, rest, starts, _⟩ := named.capital
    rintro rfl
    cases starts
  · have allowed := named.each c member
    refine ⟨fun colon => (isSegmentChar_codes allowed).2.2 ?_, shown_of_isSegmentChar allowed⟩
    rw [colon]
    rfl

/-- A unit with bare names that holds what the notation can hold. -/
structure FairUnit (unit : RubyUnit) : Prop where
  path : ∀ segment ∈ unit.path, BareName segment
  declarations : PlainDeclarations unit
  methods : ∀ method ∈ unit.methods, PlainMethod method

theorem PlainUnit.fair {unit : RubyUnit} (plain : PlainUnit unit) : FairUnit unit :=
  ⟨fun segment member => (plain.path segment member).bare, plain.declarations, plain.methods⟩

theorem FairUnit.head {unit : RubyUnit} (fair : FairUnit unit) :
    HeadingLine 1 (unitTitle unit) (unitHeading unit) := by
  obtain ⟨trimmed, given, unbroken⟩ := titled_unitTitle fair.path
  exact ⟨by decide, by decide, trimmed, given, unbroken, by simp [unitHeading_eq]⟩

/-- The sections of a unit before they are joined. -/
def unitSectionLines (settings : RenderSettings) (unit : RubyUnit) : List (List String) :=
  [unitHeading unit] :: (declarationPairs unit.qualifiedName unit).map (·.1) ::
    methodSections settings {} unit.methods

/-- A fair unit can be written. -/
theorem FairUnit.unitLines_eq {unit : RubyUnit} (fair : FairUnit unit) (settings : RenderSettings) :
    (unitLines settings unit).result = .ok (Render.joinSections (unitSectionLines settings unit)) := by
  simp [unitLines, fair.declarations.declarationLines_eq unit.qualifiedName, unitSectionLines]

def unitParts (settings : RenderSettings) (unit : RubyUnit) : List Section :=
  part 1 (unitTitle unit)
      (if declarationPairs unit.qualifiedName unit = [] then []
      else "" :: (declarationPairs unit.qualifiedName unit).map (·.1)) ::
    methodParts settings {} unit.methods

private theorem PlainDeclarations.inert {unit : RubyUnit} (plain : PlainDeclarations unit) (key : String) :
    Inert (((declarationPairs key unit).map (·.1)).map String.toList) := by
  apply inert_of_each
  rw [List.map_map]
  intro line member
  obtain ⟨pair, listed, rfl⟩ := List.mem_map.mp member
  exact (plain.readsAs key pair listed).inert

/-- The parts of a unit are found in its lines. -/
theorem FairUnit.sections_unitLines {settings : RenderSettings} {unit : RubyUnit} (fair : FairUnit unit)
    {rest : List (List Char)} (ends : (sections (scan false rest)).1 = []) :
    sections (scan false ((spaced (unitSectionLines settings unit)).map String.toList ++ rest)) =
      ([], unitParts settings unit ++ (sections (scan false rest)).2) := by
  have methods := @sections_methodSections settings _ fair.methods {} rest ends
  have inert := fair.declarations.inert unit.qualifiedName
  rw [unitSectionLines, unitParts]
  split
  · next empty =>
    have heads := @sections_part _ _ _ fair.head [] inert_nil _ (congrArg Prod.fst methods)
    rw [methods] at heads
    rw [map_spaced_cons (by simp), empty]
    exact heads
  · next given =>
    have below : Inert (("" :: (declarationPairs unit.qualifiedName unit).map (·.1)).map String.toList) := by
      have both := inert_blank.append inert
      rwa [List.singleton_append] at both
    have heads := sections_part fair.head below (congrArg Prod.fst methods)
    rw [methods] at heads
    rw [map_spaced_cons (by simp), map_spaced_cons (by simpa using given)]
    simpa using heads

/-- The parts of units are found in their lines. -/
theorem sections_units {settings : RenderSettings} {units : List RubyUnit}
    (fair : ∀ unit ∈ units, FairUnit unit) :
    sections (scan false ((units.flatMap fun unit => spaced (unitSectionLines settings unit)).map String.toList)) =
      ([], units.flatMap (unitParts settings)) := by
  induction units with
  | nil => rfl
  | cons unit rest ih =>
    have later := ih fun other member => fair other (List.mem_cons_of_mem _ member)
    have first := @FairUnit.sections_unitLines settings unit (fair unit List.mem_cons_self) _
      (congrArg Prod.fst later)
    rw [later] at first
    rw [List.flatMap_cons, List.map_append, first, List.flatMap_cons]

end LiterateRuby.Literate
