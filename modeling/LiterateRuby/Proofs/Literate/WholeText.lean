import LiterateRuby.Proofs.Literate.FrontMatter
import LiterateRuby.Proofs.Literate.Rebuilt

/-! # The whole text of a document

The written text is trimmed but for its last line feed and has no other line breaks (`Closed`), so reading
starts from the lines that were written. `callsOf_write` gives the calls of the whole text: those of front
matter for the document, then those of the written units.
-/

namespace LiterateRuby.Render

/-- Joined sections end as the last one that has lines. -/
theorem joinSections_eq {sections before : List (List String)} {final : List String}
    (shown : sections.filter (!·.isEmpty) = before ++ [final]) :
    joinSections sections = before.flatMap (· ++ [""]) ++ final := by
  have member : final ∈ sections.filter (!·.isEmpty) := by simp [shown]
  obtain ⟨listed, given⟩ := List.mem_filter.mp member
  have joined := joinSections_concat ⟨final, listed, by simpa using given⟩
  have spaces : spaced sections = (before.flatMap (· ++ [""]) ++ final) ++ [""] := by
    rw [spaced, shown, List.flatMap_append, List.flatMap_singleton, List.append_assoc]
  exact List.append_cancel_right (joined.trans spaces)

theorem joinSections_cons {lines : List String} (given : lines ≠ []) {rest : List (List String)}
    (more : ∃ lines ∈ rest, lines ≠ []) : joinSections (lines :: rest) = lines ++ [""] ++ joinSections rest := by
  have whole := @joinSections_concat (lines :: rest) ⟨lines, List.mem_cons_self, given⟩
  rw [spaced_cons given, ← joinSections_concat more, ← List.append_assoc] at whole
  exact List.append_cancel_right whole

end LiterateRuby.Render

namespace LiterateRuby.Literate

open DataFormat (Item Loads)
open Text (isBlank Trimmed Unbroken)
open Render (joinSections spaced)

/-! ## Lines that end -/

/-- Lines without line breaks of which the last one ends with something that shows. -/
structure Closed (lines : List String) : Prop where
  unbroken : ∀ line ∈ lines, Unbroken line.toList
  ends : ∀ line, lines.getLast? = some line → ∃ c, line.toList.getLast? = some c ∧ isBlank c = false

private theorem exists_getLast?_of_trimmed {cs : List Char} (trimmed : Trimmed cs) (given : cs ≠ []) :
    ∃ c, cs.getLast? = some c ∧ isBlank c = false :=
  ⟨cs.getLast given, List.getLast?_eq_some_getLast given, trimmed.2 _ (List.getLast?_eq_some_getLast given)⟩

private theorem closed_of_each {lines : List String}
    (each : ∀ line ∈ lines, Trimmed line.toList ∧ line.toList ≠ [] ∧ Unbroken line.toList) : Closed lines := by
  refine ⟨fun line member => (each line member).2.2, ?_⟩
  intro line last
  obtain ⟨trimmed, given, _⟩ := each line (List.mem_of_getLast? last)
  exact exists_getLast?_of_trimmed trimmed given

private theorem closed_cons {line : String} {lines : List String} (unbroken : Unbroken line.toList)
    (ends : ∃ c, line.toList.getLast? = some c ∧ isBlank c = false) (rest : Closed lines) :
    Closed (line :: lines) := by
  refine ⟨?_, ?_⟩
  · rintro other (_ | ⟨_, later⟩)
    · exact unbroken
    · exact rest.unbroken other later
  · intro other last
    rw [List.getLast?_cons] at last
    cases found : lines.getLast? with
    | none =>
      rw [found] at last
      cases last
      exact ends
    | some final =>
      rw [found] at last
      cases last
      exact rest.ends _ found

private theorem HeadingLine.ends {level : Nat} {title line : String} (head : HeadingLine level title line) :
    ∃ c, line.toList.getLast? = some c ∧ isBlank c = false := by
  obtain ⟨c, last, shown⟩ := exists_getLast?_of_trimmed head.trimmed head.given
  refine ⟨c, ?_, shown⟩
  obtain ⟨first, rest, same⟩ := List.exists_cons_of_ne_nil head.given
  rw [same] at last
  rw [head.written, same, List.getLast?_append, List.getLast?_cons_cons, last]
  rfl

private theorem HeadingLine.unbroken_line {level : Nat} {title line : String}
    (head : HeadingLine level title line) :
    Unbroken line.toList := by
  rw [head.written, Text.unbroken_append, Text.unbroken_cons]
  refine ⟨?_, by decide, head.unbroken⟩
  intro c member
  rw [List.eq_of_mem_replicate member]
  decide

private theorem Closed.joinSections {sections : List (List String)} (each : ∀ lines ∈ sections, Closed lines) :
    Closed (joinSections sections) := by
  cases shown : sections.filter (!·.isEmpty) using List.reverseRecOn with
  | nil =>
    have empty : Render.joinSections sections = [] := by
      rw [Render.joinSections, shown]
      rfl
    rw [empty]
    exact ⟨by simp, by simp⟩
  | append_singleton before final =>
    have held : ∀ lines ∈ before ++ [final], Closed lines ∧ lines ≠ [] := by
      intro lines member
      rw [← shown] at member
      obtain ⟨listed, given⟩ := List.mem_filter.mp member
      exact ⟨each lines listed, by simpa using given⟩
    obtain ⟨last, given⟩ := held final (by simp)
    rw [Render.joinSections_eq shown]
    refine ⟨?_, ?_⟩
    · intro line member
      rcases List.mem_append.mp member with earlier | here
      · obtain ⟨lines, listed, inside⟩ := List.mem_flatMap.mp earlier
        rcases List.mem_append.mp inside with inside | blank
        · exact (held lines (List.mem_append_left _ listed)).1.unbroken line inside
        · rw [List.mem_singleton.mp blank]
          simp
      · exact last.unbroken line here
    · intro line final'
      rw [List.getLast?_append_of_ne_nil _ given] at final'
      exact last.ends line final'

/-- The last line of a trimmed text ends as the text does. -/
theorem ends_of_trimmed {cs : List Char} (trimmed : Trimmed cs) (given : cs ≠ []) {line : List Char}
    (last : (Text.lines cs).getLast? = some line) : ∃ c, line.getLast? = some c ∧ isBlank c = false := by
  obtain ⟨c, ends, shown⟩ := exists_getLast?_of_trimmed trimmed given
  obtain ⟨before, whole⟩ : ∃ before, Text.lines cs = before ++ [line] :=
    ⟨_, (List.getLast?_eq_some_iff.mp last).choose_spec⟩
  have joined := Text.unlines_lines cs
  rw [whole] at joined
  refine ⟨c, ?_, shown⟩
  by_cases empty : line = []
  · -- then the text would be empty or end with a line feed
    exfalso
    subst empty
    cases before with
    | nil => exact given joined.symm
    | cons first more =>
      rw [Text.unlines_concat_nil (by simp)] at joined
      rw [← joined, List.getLast?_concat] at ends
      cases ends
      exact absurd shown (by decide)
  · rw [← joined, Text.getLast?_unlines empty] at ends
    exact ends

private theorem PlainBody.closed {settings : RenderSettings} {method : Method} (plain : PlainBody method.body)
    (language : ∀ c ∈ settings.fenceLanguage.toList, isBlank c = false) : Closed (bodyLines settings method) := by
  have unix : ∀ line ∈ Text.lines method.body.toList, Unbroken line := by
    intro line member c inside
    refine ⟨?_, ?_⟩
    · rintro rfl
      exact Text.flat_of_mem_lines member inside
    · rintro rfl
      exact plain.unix (Text.mem_of_mem_lines member inside)
  have signs : ∀ c ∈ Render.fence.toList, isBlank c = false := Text.shown_of_all (by decide)
  have same := bodyLines_eq settings method
  refine ⟨?_, ?_⟩
  · intro line member
    have listed := List.mem_map_of_mem (f := String.toList) member
    rw [same] at listed
    split_ifs at listed with empty looks
    · cases listed
    · rcases List.mem_cons.mp listed with opening | listed
      · rw [opening, Text.unbroken_append]
        exact ⟨Text.unbroken_of_shown signs, Text.unbroken_of_shown language⟩
      · rcases List.mem_append.mp listed with inner | closing
        · exact unix _ inner
        · rw [List.mem_singleton.mp closing]
          exact Text.unbroken_of_shown signs
    · exact unix _ listed
  · intro line last
    have shown : ((bodyLines settings method).map String.toList).getLast? = some line.toList := by
      rw [List.getLast?_map, last]
      rfl
    rw [same] at shown
    split_ifs at shown with empty looks
    · cases shown
    · rw [fencedLines, ← List.cons_append, List.getLast?_concat] at shown
      rw [← Option.some.inj shown]
      exact ⟨_, rfl, by decide⟩
    · exact ends_of_trimmed plain.trimmed (by simpa using empty) shown

private theorem closed_methodSections {settings : RenderSettings}
    (language : ∀ c ∈ settings.fenceLanguage.toList, isBlank c = false) {methods : List Method}
    (plain : ∀ method ∈ methods, PlainMethod method) (state : SectionState) :
    ∀ lines ∈ methodSections settings state methods, Closed lines := by
  have nothing : Closed [] := ⟨by simp, by simp⟩
  induction methods generalizing state with
  | nil => simp [methodSections]
  | cons method rest ih =>
    have held := plain method List.mem_cons_self
    have head := headingLine_method held.titled (nextState state method)
    have later := ih (fun other member => plain other (List.mem_cons_of_mem _ member)) (nextState state method)
    intro lines member
    rw [methodSections_cons] at member
    rcases List.mem_append.mp member with before | member
    · obtain ⟨title, shown, rfl⟩ := List.mem_map.mp before
      have section' := headingLine_section (Option.mem_toList.mp shown)
      exact closed_cons section'.unbroken_line section'.ends nothing
    · rcases List.mem_cons.mp member with rfl | after
      · exact closed_cons head.unbroken_line head.ends (held.body.closed language)
      · exact later lines after

private theorem FairUnit.closed {settings : RenderSettings}
    (language : ∀ c ∈ settings.fenceLanguage.toList, isBlank c = false) {unit : RubyUnit}
    (fair : FairUnit unit) : Closed (joinSections (unitSectionLines settings unit)) := by
  have nothing : Closed [] := ⟨by simp, by simp⟩
  apply Closed.joinSections
  intro lines member
  simp only [unitSectionLines, List.mem_cons] at member
  rcases member with rfl | rfl | method
  · exact closed_cons fair.head.unbroken_line fair.head.ends nothing
  · apply closed_of_each
    intro line listed
    obtain ⟨pair, inside, rfl⟩ := List.mem_map.mp listed
    have reads := fair.declarations.readsAs unit.qualifiedName pair inside
    exact ⟨reads.trimmed, reads.given, reads.unbroken⟩
  · exact closed_methodSections language fair.methods {} lines method

theorem closed_frontMatterLines [DataFormat] {items : List (String × Item)} (loads : items ≠ [] → Loads items) :
    Closed (frontMatterLines items) := by
  have hyphens : Unbroken "---".toList := by simp
  unfold frontMatterLines
  split
  · exact ⟨by simp, by simp⟩
  · next given =>
    have loads := loads (by simpa using given)
    refine ⟨?_, ?_⟩
    · intro line member
      simp only [List.cons_append, List.mem_cons, List.mem_append, List.not_mem_nil, or_false] at member
      rcases member with rfl | inside | rfl
      · exact hyphens
      · exact (loads.inner line inside).1
      · exact hyphens
    · intro line last
      rw [List.getLast?_concat] at last
      rw [← Option.some.inj last]
      exact ⟨'-', rfl, by decide⟩

/-! ## Blank lines around sections -/

private theorem scan_concat_blank (fenced : Bool) (lines : List (List Char)) :
    scan fenced (lines ++ [[]]) = scan fenced lines ++ [.content []] := by
  induction lines generalizing fenced with
  | nil => cases fenced <;> rfl
  | cons line rest ih =>
    rw [List.cons_append, scan_cons, scan_cons, ih, ih]
    split
    · rfl
    · split <;> rfl

/-- A blank line at the end is a line under the last heading. -/
theorem sections_concat_blank (lines : List Line) :
    (sections (lines ++ [.content []])).1 = (sections lines).1 ∨
      (sections (lines ++ [.content []])).1 = (sections lines).1 ++ [[]] := by
  induction lines with
  | nil => exact .inr rfl
  | cons line rest ih =>
    cases line with
    | content text =>
      rcases ih with same | more
      · exact .inl (congrArg (text :: ·) same)
      · exact .inr (congrArg (text :: ·) more)
    | heading heading => exact .inl rfl

/-- A blank line at the end makes no call. -/
theorem sectionsCalls_concat_blank (metadata : Metadata) (unit : Option String) (lines : List Line) :
    sectionsCalls metadata unit (sections (lines ++ [.content []])).2 =
      sectionsCalls metadata unit (sections lines).2 := by
  induction lines generalizing unit with
  | nil => rfl
  | cons line rest ih =>
    cases line with
    | content text => exact ih unit
    | heading heading =>
      have text (unit : String) (method : Option MethodTitle) :
          textCalls unit method (sections (rest ++ [.content []])).1 = textCalls unit method (sections rest).1 := by
        rcases sections_concat_blank rest with same | more
        · rw [same]
        · rw [more, textCalls_concat_nil]
      rw [List.cons_append, sections, sections, sectionsCalls, sectionsCalls]
      simp only [text, ih]

/-! ## Writing -/

def writtenUnits (document : Document) : List RubyUnit := document.units.filter (!·.isNamespaceOnly)

def textLines (settings : RenderSettings) (units : List RubyUnit) : List String :=
  joinSections (units.map fun unit => joinSections (unitSectionLines settings unit))

/-- The lines of a document with the units that are written. -/
def documentLines [DataFormat] (settings : RenderSettings) (document : Document) (units : List RubyUnit) :
    List String :=
  joinSections (frontMatterLines (frontMatter document units.head?) ::
    units.map fun unit => joinSections (unitSectionLines settings unit))

/-- Plain units can be written. -/
theorem write_result [DataFormat] {settings : RenderSettings} {document : Document}
    (given : writtenUnits document ≠ [])
    (fair : ∀ unit ∈ writtenUnits document, FairUnit unit) :
    (write settings document).result =
      .ok ("\n".intercalate (documentLines settings document (writtenUnits document)) ++ "\n") := by
  have lines : (writtenUnits document).mapM (fun unit => (unitLines settings unit).result) =
      .ok ((writtenUnits document).map fun unit => joinSections (unitSectionLines settings unit)) := by
    rw [Except.mapM_eq_ok_iff, List.forall₂_map_right_iff, List.forall₂_same]
    exact fun unit member => (fair unit member).unitLines_eq settings
  have filled : (writtenUnits document).isEmpty = false := by simpa using given
  unfold write
  rw [← writtenUnits]
  dsimp only
  rw [if_neg (by simp [filled])]
  simp only [Outcome.result_bind, Except.ok_bind, Outcome.result_mapM, lines, Outcome.result_pure]
  rfl

private theorem unitSectionLines_given (settings : RenderSettings) (unit : RubyUnit) :
    ∃ lines ∈ unitSectionLines settings unit, lines ≠ [] := ⟨[unitHeading unit], by simp [unitSectionLines]⟩

private theorem exists_textLines {settings : RenderSettings} {units : List RubyUnit} (given : units ≠ []) :
    ∃ lines ∈ units.map fun unit => joinSections (unitSectionLines settings unit), lines ≠ [] := by
  obtain ⟨unit, rest, rfl⟩ := List.exists_cons_of_ne_nil given
  exact ⟨_, List.mem_cons_self, Render.joinSections_ne_nil (unitSectionLines_given settings unit)⟩

/-- The lines of units, with a blank line after the last one. -/
theorem textLines_concat (settings : RenderSettings) {units : List RubyUnit} (given : units ≠ []) :
    textLines settings units ++ [""] = units.flatMap fun unit => spaced (unitSectionLines settings unit) := by
  have groups := Render.spaced_joinSections (units.map (unitSectionLines settings))
  rw [List.map_map, List.flatMap_map] at groups
  rw [textLines, Render.joinSections_concat (exists_textLines given)]
  exact groups

private theorem textLines_ne_nil {settings : RenderSettings} {units : List RubyUnit} (given : units ≠ []) :
    textLines settings units ≠ [] := Render.joinSections_ne_nil (exists_textLines given)

/-- The lines of units start with the heading of the first one. -/
theorem head?_textLines (settings : RenderSettings) (unit : RubyUnit) (rest : List RubyUnit) :
    (textLines settings (unit :: rest)).head? = some (unitHeading unit) := by
  have whole := textLines_concat settings (List.cons_ne_nil unit rest)
  obtain ⟨first, more, same⟩ := List.exists_cons_of_ne_nil (@textLines_ne_nil settings _ (List.cons_ne_nil unit rest))
  have starts := congrArg List.head? whole
  rw [same, List.flatMap_cons, unitSectionLines, Render.spaced_cons (by simp)] at starts
  rw [same]
  simpa using starts

private theorem closed_textLines {settings : RenderSettings}
    (language : ∀ c ∈ settings.fenceLanguage.toList, isBlank c = false) {units : List RubyUnit}
    (fair : ∀ unit ∈ units, FairUnit unit) : Closed (textLines settings units) := by
  apply Closed.joinSections
  intro lines member
  obtain ⟨unit, listed, rfl⟩ := List.mem_map.mp member
  exact (fair unit listed).closed language

/-- Written units make their calls again. -/
theorem sectionsCalls_textLines {settings : RenderSettings} {metadata : Metadata}
    (language : ∀ c ∈ settings.fenceLanguage.toList, isBlank c = false)
    (untyped : metadata.get? "type" = none) (expressible : Expressible metadata) {units : List RubyUnit}
    (given : units ≠ []) (fair : ∀ unit ∈ units, FairUnit unit) :
    sectionsCalls metadata none (sections (scan false ((textLines settings units).map String.toList))).2 =
      .ok (writtenCallsAll metadata false units) := by
  have found := @sections_units settings units fair
  rw [← textLines_concat settings given, List.map_append] at found
  rw [← sectionsCalls_concat_blank, ← scan_concat_blank]
  rw [show [""].map String.toList = [[]] from rfl] at found
  rw [found]
  exact sectionsCalls_units language untyped expressible fair none

/-- The text of a document has a heading of level one. -/
theorem headings_textLines {settings : RenderSettings} {units : List RubyUnit} (given : units ≠ [])
    (fair : ∀ unit ∈ units, FairUnit unit) :
    (headings (scan false ((textLines settings units).map String.toList))).any (·.level == 1) = true := by
  obtain ⟨unit, rest, rfl⟩ := List.exists_cons_of_ne_nil given
  have head := (fair unit List.mem_cons_self).head
  obtain ⟨first, more, same⟩ := List.exists_cons_of_ne_nil (@textLines_ne_nil settings _ (List.cons_ne_nil unit rest))
  have starts := head?_textLines settings unit rest
  rw [same] at starts ⊢
  cases starts
  have found : heading? (unitHeading unit).toList = some ⟨1, (unitTitle unit).toList⟩ := by
    rw [head.written]
    exact heading?_signs head.least head.most head.trimmed head.given
  have plainLine : isFence (unitHeading unit).toList = false := by
    rw [head.written]
    exact isFence_signs head.least (unitTitle unit).toList
  rw [List.map_cons, scan_of_heading plainLine found]
  rfl

/-! ## Reading what was written -/

/-- Lines that start and end with something that shows are what reading starts from. -/
theorem Closed.trim_text {line : String} {more : List String} (closed : Closed (line :: more))
    (starts : ∀ c, line.toList.head? = some c → isBlank c = false) (given : line.toList ≠ []) :
    Text.trim (Text.unixLines ("\n".intercalate (line :: more) ++ "\n").toList) =
      Text.unlines ((line :: more).map String.toList) := by
  have unbroken : ∀ chars ∈ (line :: more).map String.toList, Unbroken chars := by
    intro chars member
    obtain ⟨text, listed, rfl⟩ := List.mem_map.mp member
    exact closed.unbroken text listed
  have trimmed : Trimmed (Text.unlines ((line :: more).map String.toList)) := by
    refine ⟨?_, ?_⟩
    · rw [List.map_cons, Text.head?_unlines given]
      exact starts
    · obtain ⟨before, last, split⟩ := List.eq_nil_or_concat (line :: more) |>.resolve_left (by simp)
      obtain ⟨c, ends, shown⟩ := closed.ends last (by rw [split]; simp)
      have filled : last.toList ≠ [] := by
        intro empty
        rw [empty] at ends
        cases ends
      rw [split]
      intro other found
      simp only [List.concat_eq_append, List.map_append, List.map_cons, List.map_nil] at found
      rw [Text.getLast?_unlines filled, ends] at found
      rw [← Option.some.inj found]
      exact shown
  have whole : ("\n".intercalate (line :: more) ++ "\n").toList =
      Text.unlines ((line :: more).map String.toList) ++ ['\n'] := by
    rw [String.toList_append, Text.toList_intercalate_lines]
    rfl
  have unix : '\r' ∉ Text.unlines ((line :: more).map String.toList) ++ ['\n'] := by
    rw [List.mem_append, not_or]
    exact ⟨Text.unix_unlines unbroken, by decide⟩
  rw [whole, Text.unixLines_eq_self unix, Text.trim_append_right (by decide), trimmed.trim_eq]

theorem frontMatterLines_of_given [DataFormat] {items : List (String × Item)} (given : items ≠ []) :
    frontMatterLines items = "---" :: (DataFormat.write items ++ ["---"]) := by
  unfold frontMatterLines
  rw [if_neg (by simpa using given)]
  rfl

/-- Front matter is written before the parts of a text, with a blank line between. -/
theorem joinSections_frontMatterLines [DataFormat] (items : List (String × Item)) {parts : List (List String)}
    (given : ∃ lines ∈ parts, lines ≠ []) :
    joinSections (frontMatterLines items :: parts) =
      if items = [] then joinSections parts else frontMatterLines items ++ ([""] ++ joinSections parts) := by
  split
  · next empty =>
    rw [empty]
    exact Render.joinSections_nil_cons _
  · next filled =>
    have lines : frontMatterLines items ≠ [] := by simp [frontMatterLines_of_given filled]
    rw [Render.joinSections_cons lines given, List.append_assoc]

private theorem documentLines_eq [DataFormat] (settings : RenderSettings) (document : Document)
    {units : List RubyUnit}
    (given : units ≠ []) :
    documentLines settings document units =
      if frontMatter document units.head? = [] then textLines settings units
      else frontMatterLines (frontMatter document units.head?) ++ ([""] ++ textLines settings units) :=
  joinSections_frontMatterLines _ (exists_textLines given)

private theorem flat_textLines {settings : RenderSettings}
    (language : ∀ c ∈ settings.fenceLanguage.toList, isBlank c = false) {units : List RubyUnit}
    (fair : ∀ unit ∈ units, FairUnit unit) :
    ∀ line ∈ (textLines settings units).map String.toList, Text.Flat line := by
  intro line member
  obtain ⟨text, listed, rfl⟩ := List.mem_map.mp member
  exact ((closed_textLines language fair).unbroken text listed).flat

/-- Front matter is split from the units that are written after it. -/
theorem split_documentLines [DataFormat] {settings : RenderSettings}
    (language : ∀ c ∈ settings.fenceLanguage.toList, isBlank c = false) {document : Document} {unit : RubyUnit}
    {rest : List RubyUnit} (fair : ∀ other ∈ unit :: rest, FairUnit other)
    (loads : frontMatter document (some unit) ≠ [] → Loads (frontMatter document (some unit))) :
    ∃ front blank, (blank = [] ∨ blank = [[]]) ∧ front.metadata = frontMetadata document unit ∧
      Text.lines front.body = blank ++ (textLines settings (unit :: rest)).map String.toList ∧
      FrontMatter.split (Text.unlines ((documentLines settings document (unit :: rest)).map String.toList)) =
        .ok front := by
  have given : unit :: rest ≠ [] := List.cons_ne_nil unit rest
  have flat := flat_textLines language fair
  obtain ⟨first, more, same⟩ := List.exists_cons_of_ne_nil (@textLines_ne_nil settings _ given)
  have starts := head?_textLines settings unit rest
  rw [same, List.head?_cons] at starts
  have open' : FrontMatter.isDelimiter first.toList = false := by
    rw [Option.some.inj starts, (fair unit List.mem_cons_self).head.written]
    rfl
  rw [same, List.map_cons] at flat
  rw [documentLines_eq settings document given, List.head?_cons, same, apply_ite (List.map String.toList),
    List.map_append]
  exact split_beforeLines (nodup_keys_frontMatter document _) loads open' flat

/-- The first line of a document is a delimiter or the heading of the first unit. -/
theorem exists_documentLines [DataFormat] (settings : RenderSettings) (document : Document) {unit : RubyUnit}
    (fair : FairUnit unit) (rest : List RubyUnit) :
    ∃ line more, documentLines settings document (unit :: rest) = line :: more ∧
      ∃ c cs, line.toList = c :: cs ∧ isBlank c = false := by
  have given : unit :: rest ≠ [] := List.cons_ne_nil unit rest
  rw [documentLines_eq settings document given]
  split
  · obtain ⟨first, more, same⟩ := List.exists_cons_of_ne_nil (@textLines_ne_nil settings _ given)
    have heading := head?_textLines settings unit rest
    rw [same, List.head?_cons] at heading
    refine ⟨first, more, same, '#', ' ' :: (unitTitle unit).toList, ?_, by decide⟩
    rw [Option.some.inj heading, fair.head.written]
    rfl
  · next filled =>
    refine ⟨"---", DataFormat.write (frontMatter document (unit :: rest).head?) ++ ["---"] ++
      ([""] ++ textLines settings (unit :: rest)), ?_, '-', ['-', '-'], rfl, by decide⟩
    rw [frontMatterLines_of_given filled]
    rfl

private theorem closed_documentLines [DataFormat] {settings : RenderSettings}
    (language : ∀ c ∈ settings.fenceLanguage.toList, isBlank c = false) {document : Document} {unit : RubyUnit}
    {rest : List RubyUnit} (fair : ∀ other ∈ unit :: rest, FairUnit other)
    (loads : frontMatter document (some unit) ≠ [] → Loads (frontMatter document (some unit))) :
    Closed (documentLines settings document (unit :: rest)) := by
  apply Closed.joinSections
  intro lines member
  rcases List.mem_cons.mp member with rfl | member
  · exact closed_frontMatterLines loads
  · obtain ⟨other, listed, rfl⟩ := List.mem_map.mp member
    exact (fair other listed).closed language

/-- The text of a document makes the calls of its front matter and those of its units. -/
theorem callsOf_write [DataFormat] {settings : RenderSettings}
    (language : ∀ c ∈ settings.fenceLanguage.toList, isBlank c = false) {document : Document} {unit : RubyUnit}
    {rest : List RubyUnit} (fair : ∀ other ∈ unit :: rest, FairUnit other)
    (loads : frontMatter document (some unit) ≠ [] → Loads (frontMatter document (some unit)))
    (filename : Option String) :
    callsOf filename ("\n".intercalate (documentLines settings document (unit :: rest)) ++ "\n") =
      .ok (documentCalls (frontMetadata document unit) ++
        writtenCallsAll (frontMetadata document unit) false (unit :: rest)) := by
  have given : unit :: rest ≠ [] := List.cons_ne_nil unit rest
  have describes := describes_first document unit
  obtain ⟨line, more, same, c, cs, first, shown⟩ :=
    exists_documentLines settings document (fair unit List.mem_cons_self) rest
  have closed := closed_documentLines language fair loads
  rw [same] at closed
  have trimmed := closed.trim_text (by simp [first, shown]) (by simp [first])
  have filled : Text.unlines ((line :: more).map String.toList) ≠ [] := by
    have head := Text.head?_unlines (by simp [first] : line.toList ≠ []) (more.map String.toList)
    rw [List.map_cons]
    intro empty
    rw [empty, first] at head
    cases head
  obtain ⟨front, blank, blanks, metadata, body, split⟩ :=
    split_documentLines language fair loads
  -- a blank line before the first heading is neither a heading nor under one
  have scanned : (headings (scan false (blank ++ (textLines settings (unit :: rest)).map String.toList))).any
        (·.level == 1) = true ∧
      sectionsCalls (frontMetadata document unit) none
        (sections (scan false (blank ++ (textLines settings (unit :: rest)).map String.toList))).2 =
        .ok (writtenCallsAll (frontMetadata document unit) false (unit :: rest)) := by
    have heads := @headings_textLines settings _ given fair
    have calls := sectionsCalls_textLines language describes.untyped describes.expressible given fair
    rcases blanks with rfl | rfl
    · exact ⟨heads, calls⟩
    · exact ⟨heads, calls⟩
  have cut : textSections? filename front =
      some (sections (scan false (blank ++ (textLines settings (unit :: rest)).map String.toList))).2 := by
    rw [textSections?, body]
    exact if_pos scanned.1
  rw [same] at split
  rw [← metadata] at scanned describes
  rw [same, ← metadata, callsOf_eq_ok_iff, trimmed]
  exact ⟨filled, front, split, worded_nameData (describes.expressible.get? _), _, cut, _, scanned.2, rfl⟩

end LiterateRuby.Literate
