import LiterateRuby.Proofs.Literate.Profile

/-! # Headings of methods

The methods of a unit are written as headings, and before them the headings of visibilities and of the singleton
block. Without bodies nothing else is written. The headings say the same methods exactly if each title says its
method and no title before the first section is that of a section (`profilesOf_eq_iff`, `titlesHeld_iff`).
-/

namespace LiterateRuby.Literate

open Text (isBlank allBlank trim trimEnd Trimmed Unbroken)
open Render (textOf spaced)

/-! ## The lines that are written -/

def Heading.line (heading : Heading) : List Char := List.replicate heading.level '#' ++ ' ' :: heading.title

/-- The headings that the lines written for headings are read as. -/
def taken (written : List Heading) : List Heading := written.filterMap fun heading => heading? heading.line

private theorem taken_append (first second : List Heading) :
    taken (first ++ second) = taken first ++ taken second :=
  List.filterMap_append

/-- The heading that is written before a method, if one is. -/
def sectionMarks (state : SectionState) (method : Method) : List Heading :=
  (sectionTitle? state method).toList.map fun title => ⟨2, title.toList⟩

def methodHeading (state : SectionState) (method : Method) : Heading := ⟨methodLevel state, (title method).toList⟩

theorem methodLevel_bounds (state : SectionState) : 1 < methodLevel state ∧ methodLevel state ≤ 3 := by
  unfold methodLevel
  split <;> decide

def methodHeadings (state : SectionState) : List Method → List Heading
  | [] => []
  | method :: rest =>
    sectionMarks state method ++
      methodHeading (nextState state method) method :: methodHeadings (nextState state method) rest

theorem map_spaced_line {line : String} {heading : Heading} (own : line.toList = heading.line)
    (rest : List (List String)) :
    (spaced ([line] :: rest)).map String.toList = [heading.line, []] ++ (spaced rest).map String.toList := by
  simp [Render.spaced_cons, own]

theorem map_spaced_methodSections (settings : RenderSettings) {methods : List Method}
    (bodiless : ∀ method ∈ methods, method.body = "") (state : SectionState) :
    (spaced (methodSections settings state methods)).map String.toList =
      (methodHeadings state methods).flatMap fun heading => [heading.line, []] := by
  induction methods generalizing state with
  | nil => rfl
  | cons method rest ih =>
    have later := ih (fun other member => bodiless other (List.mem_cons_of_mem _ member)) (nextState state method)
    have nothing : bodyLines settings method = [] := if_pos (bodiless method List.mem_cons_self)
    have own : ((if (nextState state method).inSection then "###" else "##") ++ " " ++ title method).toList =
        (methodHeading (nextState state method) method).line := by
      unfold methodHeading methodLevel Heading.line
      cases (nextState state method).inSection <;> simp
    rw [methodSections_cons, nothing, methodHeadings, sectionMarks]
    cases sectionTitle? state method with
    | none =>
      rw [Option.toList_none, List.map_nil, List.map_nil, List.nil_append, List.nil_append, map_spaced_line own, later,
        List.flatMap_cons]
    | some mark =>
      have before : ("## " ++ mark).toList = (⟨2, mark.toList⟩ : Heading).line := by simp [Heading.line]
      rw [Option.toList_some, List.map_singleton, List.map_singleton, List.singleton_append, List.singleton_append,
        map_spaced_line before, map_spaced_line own, later, List.flatMap_cons, List.flatMap_cons]

/-! ## The headings that are read -/

private theorem isFence_line {heading : Heading} (least : 1 ≤ heading.level) : isFence heading.line = false :=
  isFence_signs least heading.title

/-- The line of a heading starts with a sign, which stays when blanks at its end are trimmed. -/
theorem line_starts {heading : Heading} (least : 1 ≤ heading.level) : ∃ rest, heading.line = '#' :: rest := by
  obtain ⟨fewer, level⟩ := Nat.exists_eq_add_of_le' least
  exact ⟨List.replicate fewer '#' ++ ' ' :: heading.title, by rw [Heading.line, level, List.replicate_succ]; rfl⟩

private theorem isFence_trimEnd_line {heading : Heading} (least : 1 ≤ heading.level) :
    isFence (trimEnd heading.line) = false := by
  obtain ⟨rest, sign⟩ := line_starts least
  rw [sign, Text.trimEnd_cons_of_shown (by decide)]
  exact isFence_of_head (by decide) (by decide) (by decide)

private theorem filterMap_written (written : List Heading) :
    (written.flatMap fun heading => [heading.line, []]).filterMap heading? = taken written := by
  have blank : heading? [] = none := rfl
  induction written with
  | nil => rfl
  | cons heading rest ih =>
    rw [List.flatMap_cons, List.filterMap_append, ih, taken, taken, List.filterMap_cons, List.filterMap_cons,
      List.filterMap_cons, blank, List.filterMap_nil]
    cases heading? heading.line <;> rfl

private theorem mem_written {written : List Heading} {line : List Char}
    (member : line ∈ written.flatMap fun heading => [heading.line, []]) :
    line = [] ∨ ∃ heading ∈ written, line = heading.line := by
  obtain ⟨heading, listed, inside⟩ := List.mem_flatMap.mp member
  simp only [List.mem_cons, List.not_mem_nil, or_false] at inside
  exact inside.symm.imp_right fun same => ⟨heading, listed, same⟩

private theorem unbroken_line {heading : Heading} (unbroken : Unbroken heading.title) : Unbroken heading.line := by
  rw [Heading.line, Text.unbroken_append, Text.unbroken_cons]
  refine ⟨fun c sign => ?_, by decide, unbroken⟩
  rw [(List.mem_replicate.mp sign).2]
  decide

/-- The lines of a text of headings, of which the last one is trimmed, are headings or empty. -/
theorem mem_read {above : List (List Char)} (blanks : above = [] ∨ above = [[]]) {before : List Heading}
    {last : Heading} {line : List Char}
    (member : line ∈ above ++ ((before.flatMap fun heading => [heading.line, []]) ++ [trimEnd last.line])) :
    line = [] ∨ ∃ heading ∈ before ++ [last], line = heading.line ∨ line = trimEnd heading.line := by
  rcases List.mem_append.mp member with outer | inner
  · rcases blanks with rfl | rfl
    · cases outer
    · exact .inl (List.mem_singleton.mp outer)
  · rcases List.mem_append.mp inner with early | final
    · exact (mem_written early).imp_right fun ⟨heading, listed, same⟩ =>
        ⟨heading, List.mem_append_left _ listed, .inl same⟩
    · exact .inr ⟨last, by simp, .inr (List.mem_singleton.mp final)⟩

/-- Headings that stand on one line each and are written with blank lines between them are read line by line, and
where all of them are headings again nothing else is read. -/
theorem sectionsOf_written [DataFormat] {lines : List String} {written : List Heading}
    (shape : lines.map String.toList ++ [[]] = written.flatMap fun heading => [heading.line, []])
    {c : Char} {title : List Char} (starts : written.head? = some ⟨1, c :: title⟩) (shown : isBlank c = false)
    (each : ∀ heading ∈ written, 1 ≤ heading.level ∧ Unbroken heading.title) :
    (sectionsOf (textOf lines)).map (·.heading) = taken written ∧
      ((∀ heading ∈ written, heading? heading.line ≠ none) →
        ∀ part ∈ sectionsOf (textOf lines), ∀ text ∈ part.text, text = []) := by
  obtain ⟨before, last, rfl⟩ := written.eq_nil_or_concat'.resolve_left (by rintro rfl; cases starts)
  have blank : [last.line, []] = [last.line] ++ [([] : List Char)] := rfl
  rw [List.flatMap_append, List.flatMap_singleton, blank, ← List.append_assoc, List.append_cancel_right_eq] at shape
  obtain ⟨rest, follows⟩ : ∃ rest, (before.flatMap fun heading => [heading.line, []]) ++ [last.line] =
      ('#' :: ' ' :: c :: title) :: rest := by
    cases before with
    | nil =>
      cases starts
      exact ⟨[], rfl⟩
    | cons heading more =>
      cases starts
      exact ⟨_, rfl⟩
  obtain ⟨more, chars, -⟩ := Text.unlines_cons_append ('#' :: ' ' :: c :: title) rest
  have unbroken : ∀ line ∈ (before.flatMap fun heading => [heading.line, []]) ++ [last.line], Unbroken line := by
    intro line member
    rcases List.mem_append.mp member with early | final
    · rcases mem_written early with rfl | ⟨heading, listed, rfl⟩
      · exact Text.unbroken_nil
      · exact unbroken_line (each heading (List.mem_append_left _ listed)).2
    · exact List.mem_singleton.mp final ▸ unbroken_line (each last (by simp)).2
  have stops : allBlank last.line = false := by
    obtain ⟨_, sign⟩ := line_starts (each last (by simp)).1
    rw [sign]
    rfl
  -- the last line is trimmed with the text: it is read as the same heading, and it is no fence
  obtain ⟨above, blanks, same⟩ := exists_lines_read shape (by rw [follows, chars]; rfl) shown unbroken stops
  have unfenced : ∀ line ∈ above ++ ((before.flatMap fun heading => [heading.line, []]) ++ [trimEnd last.line]),
      isFence line = false := by
    intro line member
    obtain rfl | ⟨heading, listed, rfl | rfl⟩ := mem_read blanks member
    · decide
    · exact isFence_line (each heading listed).1
    · exact isFence_trimEnd_line (each heading listed).1
  rw [same]
  constructor
  · have silent : above.filterMap heading? = [] := by rcases blanks with rfl | rfl <;> rfl
    rw [map_heading_sections, headings_scan_of_unfenced unfenced, List.filterMap_append, silent, List.nil_append,
      List.filterMap_append, filterMap_written, taken_append, List.filterMap_cons, heading?_trimEnd]
    rfl
  · intro all part member text inside
    obtain ⟨listed, unheaded⟩ := unheaded_of_content unfenced (content_of_section member inside)
    obtain rfl | ⟨heading, among, rfl | rfl⟩ := mem_read blanks listed
    · rfl
    · exact absurd unheaded (all heading among)
    · exact absurd (heading?_trimEnd heading.line ▸ unheaded) (all heading among)

/-! ## The methods that headings say -/

/-- The headings that stand before a method and the state of the writer agree. -/
structure Aligned (before : List Heading) (state : SectionState) : Prop where
  visibility : visibilityAfter before = state.active
  block : inBlockAfter before = state.inBlock
  inside : state.inBlock = true → state.active = .pub ∧ state.inSection = true

theorem aligned_nil : Aligned [] {} := ⟨rfl, rfl, fun block => by cases block⟩

/-- The heading that stands before a method sets the state. -/
theorem sectionMarks_cases (state : SectionState) (method : Method) :
    sectionMarks state method = [] ∧ nextState state method = state ∨
      ∃ title, sectionMarks state method = [⟨2, title⟩] ∧
        (⟨2, title⟩ : Heading).sets? = some (nextState state method).active ∧
        (⟨2, title⟩ : Heading).opensBlock = (nextState state method).inBlock := by
  have single : (⟨2, "class << self".toList⟩ : Heading).sets? = some .pub ∧
      (⟨2, "class << self".toList⟩ : Heading).opensBlock = true := by decide
  have visible (visibility : Visibility) : (⟨2, visibility.keyword.toList⟩ : Heading).sets? = some visibility ∧
      (⟨2, visibility.keyword.toList⟩ : Heading).opensBlock = false := by
    cases visibility <;> decide
  unfold sectionMarks sectionTitle? nextState sectionHeadings
  split_ifs
  · exact .inl ⟨rfl, rfl⟩
  · exact .inr ⟨_, rfl, single⟩
  · exact .inr ⟨_, rfl, visible method.visibility⟩
  · exact .inl ⟨rfl, rfl⟩

/-- The heading that stands before a method is that of no method. -/
theorem sectionMarks_silent (state : SectionState) (method : Method) :
    ∀ heading ∈ sectionMarks state method, heading.isMethod = false := by
  obtain ⟨unmarked, -⟩ | ⟨title, mark, sets, -⟩ := sectionMarks_cases state method
  · simp [unmarked]
  · simp [mark, Heading.isMethod, sets]

/-- The heading that stands before a method is a heading on one line. -/
theorem mark_read {state : SectionState} {method : Method} {heading : Heading}
    (member : heading ∈ sectionMarks state method) :
    heading.level = 2 ∧ Unbroken heading.title ∧ heading? heading.line = some heading := by
  obtain ⟨title, shown, rfl⟩ := List.mem_map.mp member
  have head := headingLine_section (Option.mem_toList.mp shown)
  exact ⟨rfl, head.unbroken, heading?_signs head.least head.most head.trimmed head.given⟩

private theorem taken_sectionMarks (state : SectionState) (method : Method) :
    taken (sectionMarks state method) = sectionMarks state method := by
  rw [taken, List.filterMap_congr fun heading member => (mark_read member).2.2, List.filterMap_some]

/-- The heading before a method brings the reader to where the method stands. -/
theorem Aligned.section {before : List Heading} {state : SectionState} (aligned : Aligned before state)
    {method : Method} (block : method.binding = .inSingleton → method.visibility = .pub) :
    Aligned (before ++ sectionMarks state method) (nextState state method) := by
  obtain ⟨-, -, inside⟩ := nextState_of_block block aligned.inside
  obtain ⟨unmarked, same⟩ | ⟨title, mark, sets, opens⟩ := sectionMarks_cases state method
  · rw [unmarked, same, List.append_nil]
    exact aligned
  · rw [mark]
    refine ⟨?_, ?_, inside⟩
    · rw [visibilityAfter_concat, sets, Option.getD_some]
    · rw [inBlockAfter_concat, if_pos rfl, opens]

/-- A heading of the level of methods stands in the singleton block where the writer does: the block is a section. -/
theorem Aligned.block_eq {before : List Heading} {state : SectionState} (aligned : Aligned before state)
    {heading : Heading} (level : heading.level = methodLevel state) :
    (heading.level == 3 && inBlockAfter before) = state.inBlock := by
  rw [aligned.block, level, methodLevel]
  cases within : state.inBlock with
  | false => rw [Bool.and_false]
  | true => rw [(aligned.inside within).2]; rfl

/-- The heading of a method leaves the reader where the next method is written. -/
theorem Aligned.method {before : List Heading} {state : SectionState} (aligned : Aligned before state)
    {heading : Heading} (titled : heading.isMethod = true) (level : heading.level = methodLevel state) :
    Aligned (before ++ [heading]) state := by
  obtain ⟨visibility, block⟩ := after_method titled before
  exact ⟨visibility.trans aligned.visibility, block.trans (aligned.block_eq level), aligned.inside⟩

/-- A title that says its method. -/
def HeldInTitle (method : Method) : Prop :=
  readTitle (title method).toList = .ok ⟨method.name, method.parameters, titledBinding method.binding⟩

/-- A title that is not that of a section. -/
def Unsectioned (method : Method) : Prop :=
  Visibility.ofText? (title method) = none ∧ (title method).toList ≠ singletonTitle

/-- The heading of a method is that of a method in a section, and before all sections if its title is not that of
one. -/
theorem isMethod_methodHeading (state : SectionState) (method : Method) :
    (methodHeading state method).isMethod = true ↔ (state.inSection = false → Unsectioned method) := by
  unfold methodHeading methodLevel Heading.isMethod Heading.sets? Unsectioned
  cases state.inSection with
  | true => simp
  | false => simp [String.ofList_toList]

/-- A title that says its method is trimmed. -/
theorem HeldInTitle.trimmed {method : Method} (held : HeldInTitle method) (named : method.name ≠ "") :
    Trimmed (title method).toList ∧ (title method).toList ≠ [] :=
  trimmed_title (trimmed_of_readTitle held rfl rfl) named

theorem HeldInTitle.heading?_eq {method : Method} (held : HeldInTitle method) (named : method.name ≠ "")
    (state : SectionState) : heading? (methodHeading state method).line = some (methodHeading state method) := by
  obtain ⟨trimmed, given⟩ := held.trimmed named
  have bounds := methodLevel_bounds state
  exact heading?_signs bounds.1.le bounds.2 trimmed given

section Step

variable {before : List Heading} {state : SectionState} (aligned : Aligned before state) {method : Method}
  (visible : state.active = method.visibility) (block : state.inBlock = (method.binding == .inSingleton))
include aligned visible block

/-- A heading of the right level says a method if its title does. -/
theorem profileOf_eq_ok_iff {heading : Heading} (level : heading.level = methodLevel state) :
    profileOf before heading = .ok method.profile ↔
      readTitle heading.title = .ok ⟨method.name, method.parameters, titledBinding method.binding⟩ := by
  unfold profileOf
  rw [aligned.block_eq level, block, aligned.visibility, visible]
  constructor
  · intro said
    obtain ⟨⟨name, parameters, binding⟩, read, same⟩ := Except.bind_eq_ok_iff.mp said
    have other := binding_of_readTitle read
    have parts := Except.ok.inj same
    simp only [Method.profile, Profile.mk.injEq] at parts
    obtain ⟨rfl, bound, -, rfl⟩ := parts
    rw [read]
    congr 2
    cases own : method.binding <;> cases binding <;> simp_all [titledBinding]
  · intro read
    rw [read]
    cases own : method.binding <;> simp [Method.profile, titledBinding, own, pure, Except.pure, bind, Except.bind]

/-- The line of a method is read as its heading exactly if its title says the method and, before all sections, is no
section heading. -/
theorem read_method_iff (named : method.name ≠ "") :
    (∃ heading, heading? (methodHeading state method).line = some heading ∧ heading.isMethod = true ∧
        profileOf before heading = .ok method.profile) ↔
      HeldInTitle method ∧ (state.inSection = false → Unsectioned method) := by
  rw [← isMethod_methodHeading]
  constructor
  · rintro ⟨heading, found, titled, said⟩
    obtain rfl := heading?_of_signs _ found
    have read := (profileOf_eq_ok_iff aligned visible block rfl).mp said
    obtain ⟨trimmed, -⟩ := trimmed_title (trimmed_of_readTitle read rfl rfl) named
    have whole : trim (methodHeading state method).title = (methodHeading state method).title := trimmed.trim_eq
    rw [whole] at read titled
    exact ⟨read, titled⟩
  · rintro ⟨held, titled⟩
    exact ⟨_, held.heading?_eq named state, titled, (profileOf_eq_ok_iff aligned visible block rfl).mpr held⟩

end Step

/-- Titles that are read as their methods where the writer stands. -/
def TitlesHeld (state : SectionState) : List Method → Prop
  | [] => True
  | method :: rest =>
    (HeldInTitle method ∧ ((nextState state method).inSection = false → Unsectioned method)) ∧
      TitlesHeld (nextState state method) rest

private theorem profilesOf_append (before first second : List Heading) :
    profilesOf before (first ++ second) = profilesOf before first ++ profilesOf (before ++ first) second := by
  induction first generalizing before with
  | nil => simp [profilesOf]
  | cons heading rest ih => rw [List.cons_append, profilesOf, ih, profilesOf, List.append_assoc, List.append_assoc]; rfl

private theorem profilesOf_eq_nil {headings : List Heading}
    (silent : ∀ heading ∈ headings, heading.isMethod = false)
    (before : List Heading) : profilesOf before headings = [] := by
  induction headings generalizing before with
  | nil => rfl
  | cons heading rest ih =>
    rw [profilesOf, if_neg (by simp [silent heading List.mem_cons_self]), List.nil_append,
      ih fun other member => silent other (List.mem_cons_of_mem _ member)]

/-- What the headings of methods say: nothing before the first one, then what that one says, if it is read as a
heading. -/
theorem profilesOf_methodHeadings (before : List Heading) (state : SectionState) (method : Method)
    (rest : List Method) :
    profilesOf before (taken (methodHeadings state (method :: rest))) =
      profilesOf (before ++ sectionMarks state method)
          (heading? (methodHeading (nextState state method) method).line).toList ++
        profilesOf (before ++ sectionMarks state method ++
            (heading? (methodHeading (nextState state method) method).line).toList)
          (taken (methodHeadings (nextState state method) rest)) := by
  have own (heading : Heading) (more : List Heading) :
      taken (heading :: more) = (heading? heading.line).toList ++ taken more := by
    rw [taken, List.filterMap_cons]
    cases heading? heading.line <;> rfl
  rw [methodHeadings, taken_append, taken_sectionMarks, own, profilesOf_append,
    profilesOf_eq_nil (sectionMarks_silent state method), List.nil_append, profilesOf_append]

/-- One line says one method, or none if it is not read as the heading of one. -/
theorem profilesOf_toList (before : List Heading) (found : Option Heading) :
    (∃ heading, found = some heading ∧ heading.isMethod = true ∧
        profilesOf before found.toList = [profileOf before heading]) ∨
      (∀ heading, found = some heading → heading.isMethod = false) ∧ profilesOf before found.toList = [] := by
  cases found with
  | none => exact .inr ⟨by simp, rfl⟩
  | some heading =>
    cases titled : heading.isMethod with
    | true => exact .inl ⟨heading, rfl, titled, by simp [profilesOf, titled]⟩
    | false => exact .inr ⟨by simp [titled], by simp [profilesOf, titled]⟩

/-- No more methods are read than are written. -/
theorem length_profilesOf_le (before : List Heading) (state : SectionState) (methods : List Method) :
    (profilesOf before (taken (methodHeadings state methods))).length ≤ methods.length := by
  induction methods generalizing before state with
  | nil => exact le_rfl
  | cons method rest ih =>
    have later := ih (before ++ sectionMarks state method ++
      (heading? (methodHeading (nextState state method) method).line).toList) (nextState state method)
    rw [profilesOf_methodHeadings, List.length_append, List.length_cons]
    obtain ⟨heading, -, -, one⟩ | ⟨-, empty⟩ := profilesOf_toList (before ++ sectionMarks state method)
      (heading? (methodHeading (nextState state method) method).line)
    · rw [one, List.length_singleton]
      omega
    · rw [empty, List.length_nil]
      omega

/-- The headings that are written for methods say these methods exactly if each title is read as its method. -/
theorem profilesOf_eq_iff {methods : List Method}
    (sound : ∀ method ∈ methods, method.name ≠ "" ∧ (method.binding = .inSingleton → method.visibility = .pub))
    {before : List Heading} {state : SectionState} (aligned : Aligned before state) :
    profilesOf before (taken (methodHeadings state methods)) = methods.map (.ok ·.profile) ↔
      TitlesHeld state methods := by
  induction methods generalizing before state with
  | nil => exact iff_of_true rfl trivial
  | cons method rest ih =>
    obtain ⟨named, block⟩ := sound method List.mem_cons_self
    obtain ⟨visible, single, -⟩ := nextState_of_block block aligned.inside
    have here := aligned.section block
    rw [profilesOf_methodHeadings, TitlesHeld, ← read_method_iff here visible single named, List.map_cons]
    obtain ⟨heading, found, titled, one⟩ | ⟨untitled, empty⟩ := profilesOf_toList (before ++ sectionMarks state method)
      (heading? (methodHeading (nextState state method) method).line)
    · have level : heading.level = methodLevel (nextState state method) := by
        rw [heading?_of_signs _ found]
        rfl
      have following := ih (fun other member => sound other (List.mem_cons_of_mem _ member))
        (here.method titled level)
      rw [one, found, Option.toList_some, List.singleton_append, List.cons_eq_cons, following]
      simp [titled]
    · -- without this method too few are left
      have short := length_profilesOf_le (before ++ sectionMarks state method ++
        (heading? (methodHeading (nextState state method) method).line).toList) (nextState state method) rest
      refine iff_of_false (fun same => ?_) fun ⟨⟨heading, found, titled, _⟩, _⟩ => ?_
      · have lengths := congrArg List.length same
        rw [empty, List.nil_append, List.length_cons, List.length_map] at lengths
        omega
      · rw [untitled heading found] at titled
        cases titled

/-- The methods that are written before all sections. -/
def leading (methods : List Method) : List Method :=
  methods.takeWhile fun method => method.visibility == .pub && method.binding != .inSingleton

/-- In a section titles only have to say their methods. -/
theorem titlesHeld_of_inSection {state : SectionState} (inside : state.inSection = true) (methods : List Method) :
    TitlesHeld state methods ↔ ∀ method ∈ methods, HeldInTitle method := by
  induction methods generalizing state with
  | nil => simp [TitlesHeld]
  | cons method rest ih =>
    have next : (nextState state method).inSection = true := by
      unfold nextState sectionHeadings
      split_ifs <;> simp [inside]
    rw [TitlesHeld, ih next, List.forall_mem_cons]
    simp [next]

/-- Titles are held if they say their methods and those before all sections are not those of sections. -/
theorem titlesHeld_iff (methods : List Method) :
    TitlesHeld {} methods ↔
      (∀ method ∈ methods, HeldInTitle method) ∧ ∀ method ∈ leading methods, Unsectioned method := by
  induction methods with
  | nil => simp [TitlesHeld, leading]
  | cons method rest ih =>
    cases early : method.visibility == .pub && method.binding != .inSingleton with
    | true =>
      have same : nextState {} method = {} := by
        simp only [Bool.and_eq_true, beq_iff_eq, bne_iff_ne] at early
        simp [nextState, sectionHeadings, early.1, early.2]
      have first : leading (method :: rest) = method :: leading rest := List.takeWhile_cons_of_pos early
      rw [TitlesHeld, same, ih, first, List.forall_mem_cons, List.forall_mem_cons]
      simp only [forall_const]
      exact and_and_and_comm
    | false =>
      have inside : (nextState {} method).inSection = true := by
        unfold nextState sectionHeadings
        split_ifs <;> simp_all
      have empty : leading (method :: rest) = [] := List.takeWhile_cons_of_neg (by simp [early])
      rw [TitlesHeld, titlesHeld_of_inSection inside, empty, List.forall_mem_cons]
      simp [inside]

end LiterateRuby.Literate
