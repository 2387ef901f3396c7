import LiterateRuby.Proofs.Literate.Legible
import LiterateRuby.Proofs.Literate.WholeText
import LiterateRuby.Proofs.UnitName
import LiterateRuby.Proofs.Yaml.Write

/-! # Which written texts are read again

The text of a document whose units are all mere namespaces is front matter alone, and no text without a unit
heading is read. Any other text starts, after its front matter, with the heading of its first unit, and is
read exactly if its sections are legible (`Document.Returned.read_write_iff`).
-/

namespace LiterateRuby.Render

/-- Joined sections start as the first one. -/
theorem head?_joinSections {lines : List String} (filled : lines ≠ []) (rest : List (List String)) :
    (joinSections (lines :: rest)).head? = lines.head? := by
  by_cases more : ∃ lines ∈ rest, lines ≠ []
  · rw [joinSections_cons filled more, List.append_assoc, List.head?_append_of_ne_nil _ filled]
  · have empty : rest.filter (!·.isEmpty) = [] := by
      rw [List.filter_eq_nil_iff]
      intro other member
      simpa using fun given => more ⟨other, member, given⟩
    rw [joinSections, List.filter_cons_of_pos (by simpa using filled), empty]
    simp

end LiterateRuby.Render

namespace LiterateRuby.Literate

open DataFormat (Item Loads)
open Draft (Call Consistent)
open Render (joinSections)
open Text (isBlank Unindented)

/-! ## Any text -/

/-- A text is read exactly if its calls are consistent. -/
theorem exists_read_iff [DataFormat] {filename : Option String} {text : String} :
    (∃ document, (read filename text).result = .ok document) ↔
      ∃ calls, callsOf filename text = .ok calls ∧ ∀ key, Consistent key calls := by
  have runs {calls : List Call} (made : callsOf filename text = .ok calls) :=
    @Draft.exists_runs_of_empty_iff filename calls fun call member => (callsOf_complete made call member).2
  constructor
  · rintro ⟨document, success⟩
    obtain ⟨calls, draft, made, run, _, _⟩ := read_eq_ok_iff.mp success
    exact ⟨calls, made, (runs made).mp ⟨draft, run⟩⟩
  · rintro ⟨calls, made, consistent⟩
    obtain ⟨draft, run⟩ := (runs made).mpr consistent
    have holds := run.holds (Draft.holds_empty filename) fun call member => (callsOf_complete made call member).1
    rw [List.nil_append] at holds
    exact ⟨draft.document, read_eq_ok_iff.mpr ⟨calls, draft, made, run, holds, rfl⟩⟩

/-- A text without a unit heading is not read if no file gives it a name. -/
theorem read_of_unheaded [DataFormat] {text : String} {front : FrontMatter}
    (given : Text.trim (Text.unixLines text.toList) ≠ [])
    (splits : FrontMatter.split (Text.trim (Text.unixLines text.toList)) = .ok front)
    (expressible : Expressible front.metadata)
    (unheaded : (headings (scan false (Text.lines front.body))).any (·.level == 1) = false) :
    (read none text).result = .error .noUnitHeading := by
  have filled : (Text.trim (Text.unixLines text.toList)).isEmpty = false := by simpa using given
  unfold read readInto
  dsimp only
  rw [filled, if_neg Bool.false_ne_true, splits]
  simp only [Outcome.result_bind, Outcome.result_ofExcept, Except.mapError_ok, Except.ok_bind,
    result_takeNames, expressible.checkWords_eq]
  rw [unheaded, if_neg Bool.false_ne_true]
  rfl

private theorem documentCalls_elsewhere (metadata : Metadata) (key : String) :
    ∀ call ∈ documentCalls metadata, call.unit? ≠ some key := by
  intro call made
  rw [documentCalls_unaddressed metadata call made]
  exact (Option.some_ne_none key).symm

/-- The sections of a text after its front matter. -/
def sectionsOf [DataFormat] (text : String) : List Section :=
  match FrontMatter.split (Text.trim (Text.unixLines text.toList)) with
  | .ok front => (sections (scan false (Text.lines front.body))).2
  | .error _ => []

theorem sectionsOf_eq [DataFormat] {text : String} {front : FrontMatter}
    (splits : FrontMatter.split (Text.trim (Text.unixLines text.toList)) = .ok front) :
    sectionsOf text = (sections (scan false (Text.lines front.body))).2 := by
  rw [sectionsOf, splits]

section Headed

variable [DataFormat] {text : String} {front : FrontMatter} {part : Section}
  (splits : FrontMatter.split (Text.trim (Text.unixLines text.toList)) = .ok front)
  (headed : (sectionsOf text).head? = some part) (first : part.heading.level = 1)
include splits headed first

/-- A text that starts with a unit heading has the sections that its headings start, whatever its file is
called. -/
theorem textSections?_of_headed (filename : Option String) :
    textSections? filename front = some (sectionsOf text) := by
  have parts := sectionsOf_eq splits
  have member : part ∈ (sections (scan false (Text.lines front.body))).2 := parts ▸ List.mem_of_mem_head? headed
  have heads : (headings (scan false (Text.lines front.body))).any (·.level == 1) = true :=
    List.any_eq_true.mpr ⟨part.heading, mem_headings_of_section member, by simp [first]⟩
  rw [textSections?, parts]
  exact if_pos heads

/-- A text that starts with a unit heading after front matter for a unit is read exactly if its sections are
legible. -/
theorem exists_read_iff_legible {described : RubyUnit} (describes : Describes front.metadata described)
    (apart : ∀ name ∈ described.aliases.keys, name ∉ described.aliasMethods.keys) :
    (∃ document, (read none text).result = .ok document) ↔ Legible (sectionsOf text) := by
  have given : Text.trim (Text.unixLines text.toList) ≠ [] := by
    intro empty
    rw [empty] at splits
    cases splits
    rw [sectionsOf, empty] at headed
    cases headed
  have cut := textSections?_of_headed splits headed first none
  have made {calls : List Call} : callsOf none text = .ok calls ↔
      ∃ rest, sectionsCalls front.metadata none (sectionsOf text) = .ok rest ∧
        calls = documentCalls front.metadata ++ rest := by
    rw [callsOf_eq_ok_iff, and_iff_right given]
    constructor
    · rintro ⟨other, again, -, parts, same, follows⟩
      cases splits.symm.trans again
      cases cut.symm.trans same
      exact follows
    · exact fun follows =>
        ⟨front, splits, worded_nameData (describes.expressible.get? _), _, cut, follows⟩
  have unaddressed := documentCalls_elsewhere front.metadata
  rw [exists_read_iff, ← describes.consistent_sectionsCalls_iff apart (levels_of_textSections? cut)
    fun other found => by
      rw [headed] at found
      exact Option.some.inj found ▸ first]
  constructor
  · rintro ⟨calls, success, consistent⟩
    obtain ⟨rest, follows, rfl⟩ := made.mp success
    exact ⟨rest, follows, fun key => (Draft.consistent_append_of_unaddressed (unaddressed key)).mp (consistent key)⟩
  · rintro ⟨rest, follows, consistent⟩
    exact ⟨_, made.mpr ⟨rest, follows, rfl⟩, fun key =>
      (Draft.consistent_append_of_unaddressed (unaddressed key)).mpr (consistent key)⟩

end Headed

/-! ## Lines of units -/

/-- The first line of a text that is read is the one that was written, but for blanks at its end. -/
theorem trimEnd_first_line {title others first : List Char} {more : List (List Char)}
    (unbroken : Text.Unbroken title)
    (lines : Text.lines (Text.trimEnd (Text.unixLines (title ++ '\n' :: others))) = first :: more) :
    Text.trimEnd first = Text.trimEnd title := by
  have plain : '\r' ∉ title := fun member => (unbroken '\r' member).2 rfl
  have unix : Text.unixLines (title ++ '\n' :: others) = title ++ '\n' :: Text.unixLines others :=
    Text.unixLines_append plain _
  rw [unix] at lines
  cases after : Text.allBlank ('\n' :: Text.unixLines others) with
  | true =>
    rw [Text.trimEnd_append_of_blank after, Text.lines, Text.splitOn_of_absent fun member =>
      unbroken.flat ((Text.trimEnd_starts title).subset member)] at lines
    cases lines
    exact Text.trimEnd_trimEnd title
  | false =>
    have content : Text.allBlank (Text.unixLines others) = false := by
      rw [← after, Text.allBlank, Text.allBlank, List.all_cons]
      rfl
    have broken := Text.trimEnd_append content ['\n']
    rw [Text.trimEnd_append after, ← List.singleton_append, broken, List.singleton_append, Text.lines,
      Text.splitOn_append, Text.splitOn_of_absent unbroken.flat] at lines
    cases lines
    rfl

/-- A text that starts with a unit heading still does when reading starts. -/
theorem lines_trim_of_heading {c : Char} (shown : isBlank c = false) (rest : List Char) :
    ∃ first more, Text.lines (Text.trim (Text.unixLines ('#' :: ' ' :: c :: rest))) =
      ('#' :: ' ' :: c :: first) :: more ∧
        Text.lines (Text.trimEnd (Text.unixLines rest)) = first :: more := by
  have flat : Text.Flat ['#', ' ', c] := by
    have own : Text.Flat [c] := (Text.unbroken_of_shown (by simpa using shown)).flat
    simpa [Text.Flat] using own
  have trimmed : Text.trim (Text.unixLines ('#' :: ' ' :: c :: rest)) =
      ['#', ' ', c] ++ Text.trimEnd (Text.unixLines rest) := by
    have before := @Text.trim_unixLines_append ['#', ' '] (by decide) ⟨'#', rfl, by decide⟩ c shown rest
    rw [Text.trim_unixLines_cons shown] at before
    exact before
  obtain ⟨first, more, lines, same⟩ := Text.lines_append_of_flat flat (Text.trimEnd (Text.unixLines rest))
  exact ⟨first, more, by rw [trimmed, same]; rfl, lines⟩

/-- The first section of such a text is of level one. -/
theorem sections_of_heading {c : Char} (shown : isBlank c = false) (first : List Char)
    (more : List (List Char)) :
    sections (scan false (('#' :: ' ' :: c :: first) :: more)) =
      ([], ⟨⟨1, c :: Text.trimEnd first⟩, (sections (scan false more)).1⟩ :: (sections (scan false more)).2) := by
  have found : heading? ('#' :: ' ' :: c :: first) = some ⟨1, c :: Text.trimEnd first⟩ := by
    rw [← Text.trimEnd_cons_of_shown shown]
    exact congrArg _ (@headingParts?_signs 1 (by decide) (by decide) c shown first)
  have open' : isFence ('#' :: ' ' :: c :: first) = false := @isFence_signs 1 (by decide) (c :: first)
  rw [scan_of_heading open' found]
  rfl

private theorem head?_unitLines {settings : RenderSettings} {unit : RubyUnit} {lines : List String}
    (success : (unitLines settings unit).result = .ok lines) : lines.head? = some (unitHeading unit) := by
  obtain ⟨declarations, _, success⟩ := Outcome.bind_result_eq_ok_iff.mp success
  obtain ⟨_, _, same⟩ := Outcome.bind_result_eq_ok_iff.mp success
  cases same
  exact Render.head?_joinSections (by simp) _

/-- The name of a unit starts with something that shows. -/
theorem qualifiedName_starts {unit : RubyUnit} (named : unit.name ≠ "")
    (unindented : Unindented unit.qualifiedName.toList) :
    ∃ c rest, unit.qualifiedName.toList = c :: rest ∧ isBlank c = false := by
  have given : unit.qualifiedName.toList ≠ [] := by
    rw [ne_eq, String.toList_eq_nil_iff]
    cases scope : unit.scope with
    | nil =>
      have alone : unit.qualifiedName = unit.name := by
        rw [RubyUnit.qualifiedName, RubyUnit.path, scope]
        rfl
      rwa [alone]
    | cons outer more =>
      have whole : unit.qualifiedName = Text.joinScope (outer :: more) ++ "::" ++ unit.name := by
        rw [RubyUnit.qualifiedName, RubyUnit.path, scope]
        exact Ruby.keyOf_path (by simp) unit.name
      simp [whole]
  obtain ⟨c, rest, same⟩ := List.exists_cons_of_ne_nil given
  exact ⟨c, rest, same, unindented c (by rw [same]; rfl)⟩

/-- The title of a unit starts with something that shows. -/
theorem unitTitle_starts {unit : RubyUnit} (named : unit.name ≠ "")
    (unindented : Unindented unit.qualifiedName.toList) :
    ∃ c rest, (unitTitle unit).toList = c :: rest ∧ isBlank c = false := by
  obtain ⟨c, rest, same, shown⟩ := qualifiedName_starts named unindented
  unfold unitTitle
  cases unit.kind with
  | mod => exact ⟨'m', "odule ".toList ++ (Text.joinScope unit.path).toList, by simp, by decide⟩
  | cls => exact ⟨c, rest, by simpa [RubyUnit.qualifiedName] using same, shown⟩

/-! ## Front matter before units -/

/-- Before a text that shows, front matter and a blank line stay as they are written. -/
theorem trim_frontMatterLines [DataFormat] {items : List (String × Item)} (given : items ≠ [])
    (loads : Loads items) {lines : List String} {c : Char} {rest : List Char}
    (starts : Text.unlines (lines.map String.toList) = c :: rest) (shown : isBlank c = false) :
    Text.trim (Text.unixLines ("\n".intercalate (frontMatterLines items ++ ([""] ++ lines)) ++ "\n").toList) =
      Text.unlines ((frontMatterLines items).map String.toList ++
        [] :: Text.lines (Text.trim (Text.unixLines (c :: (rest ++ ['\n']))))) := by
  have front := frontMatterLines_of_given given
  have filled : (frontMatterLines items).map String.toList ≠ [] := by simp [front]
  have body : lines.map String.toList ≠ [] := by
    intro empty
    rw [empty] at starts
    cases starts
  have plain : '\r' ∉ Text.unlines ((frontMatterLines items).map String.toList) ++ ['\n', '\n'] := by
    rw [List.mem_append, not_or]
    refine ⟨Text.unix_unlines fun chars member => ?_, by decide⟩
    obtain ⟨line, listed, rfl⟩ := List.mem_map.mp member
    exact (closed_frontMatterLines fun _ => loads).unbroken line listed
  have head : (Text.unlines ((frontMatterLines items).map String.toList) ++ ['\n', '\n']).head? =
      Option.some '-' := by
    rw [front, List.map_cons, List.head?_append, Text.head?_unlines (by simp)]
    rfl
  have chars : ("\n".intercalate (frontMatterLines items ++ ([""] ++ lines)) ++ "\n").toList =
      Text.unlines ((frontMatterLines items).map String.toList) ++ ['\n', '\n'] ++ c :: (rest ++ ['\n']) := by
    have blank : (frontMatterLines items ++ ([""] ++ lines)).map String.toList =
        (frontMatterLines items).map String.toList ++ [] :: lines.map String.toList := by simp
    rw [String.toList_append, Text.toList_intercalate_lines, blank, Text.unlines_append_nil_cons filled body,
      starts]
    simp
  rw [chars, Text.trim_unixLines_append plain ⟨'-', head, by decide⟩ shown,
    Text.unlines_append_nil_cons filled (Text.lines_ne_nil _), Text.unlines_lines]

/-- Front matter, if there is any, is split from the units after it, which start with a heading. -/
theorem split_headed [DataFormat] {items : List (String × Item)} (once : (Entries.keys items).Nodup)
    (loads : items ≠ [] → Loads items) {lines : List String} {c : Char} {rest : List Char}
    (starts : Text.unlines (lines.map String.toList) = '#' :: ' ' :: c :: rest) (shown : isBlank c = false)
    {text : String}
    (whole : text = "\n".intercalate
      (if items = [] then lines else frontMatterLines items ++ ([""] ++ lines)) ++ "\n") :
    ∃ front blank first more, (blank = [] ∨ blank = [[]]) ∧ front.metadata = metadataOf items ∧
      Text.lines front.body = blank ++ ('#' :: ' ' :: c :: first) :: more ∧
      Text.lines (Text.trimEnd (Text.unixLines (rest ++ ['\n']))) = first :: more ∧
      FrontMatter.split (Text.trim (Text.unixLines text.toList)) = .ok front := by
  obtain ⟨first, more, same, after⟩ := lines_trim_of_heading shown (rest ++ ['\n'])
  have flat : ∀ line ∈ ('#' :: ' ' :: c :: first) :: more, Text.Flat line :=
    fun line member => Text.flat_of_mem_lines (same ▸ member)
  obtain ⟨front, blank, blanks, metadata, body, split⟩ := split_beforeLines once loads rfl flat
  have trimmed : Text.trim (Text.unixLines text.toList) =
      Text.unlines (if items = [] then ('#' :: ' ' :: c :: first) :: more
        else (frontMatterLines items).map String.toList ++ [] :: ('#' :: ' ' :: c :: first) :: more) := by
    rw [whole]
    split
    · rw [String.toList_append, Text.toList_intercalate_lines, starts, ← same, Text.unlines_lines]
      rfl
    · next given =>
      rw [trim_frontMatterLines given (loads given) starts (by decide), List.cons_append, List.cons_append, same]
  exact ⟨front, blank, first, more, blanks, metadata, body, after, trimmed ▸ split⟩

/-! ## Written texts -/

/-- A text that is not empty is front matter and the lines of its units. -/
theorem write_eq_ok [DataFormat] {settings : RenderSettings} {document : Document} {text : String}
    (written : (write settings document).result = .ok text) (given : text ≠ "") :
    (writtenUnits document = [] → document.requires ≠ []) ∧
      ∃ parts, (writtenUnits document).mapM (fun unit => (unitLines settings unit).result) = .ok parts ∧
        text = "\n".intercalate (joinSections
          (frontMatterLines (frontMatter document (writtenUnits document).head?) :: parts)) ++ "\n" := by
  unfold write at written
  rw [← writtenUnits] at written
  dsimp only at written
  split at written
  · cases written
    exact absurd rfl given
  · next filled =>
    obtain ⟨_, _, written⟩ := Outcome.bind_result_eq_ok_iff.mp written
    obtain ⟨parts, lines, same⟩ := Outcome.bind_result_eq_ok_iff.mp written
    rw [Outcome.result_mapM] at lines
    cases same
    refine ⟨fun empty nothing => ?_, parts, lines, rfl⟩
    simp [empty, nothing] at filled

/-- Front matter without a unit only gives the required libraries. -/
theorem frontMatter_none {document : Document} (given : document.requires ≠ []) :
    frontMatter document none = [("require", .texts document.requires)] := by
  simp [frontMatter, given]

/-- Without units a text is front matter alone. -/
theorem split_write_of_unwritten [DataFormat] {settings : RenderSettings} {document : Document} {text : String}
    (written : (write settings document).result = .ok text) (given : text ≠ "")
    (loads : Loads (frontMatter document none)) (empty : writtenUnits document = []) :
    Text.trim (Text.unixLines text.toList) ≠ [] ∧ FrontMatter.split (Text.trim (Text.unixLines text.toList)) =
      .ok ⟨metadataOf (frontMatter document none), Text.unlines [], true⟩ := by
  obtain ⟨requires, parts, lines, whole⟩ := write_eq_ok written given
  have front := frontMatter_none (requires empty)
  rw [empty] at lines whole
  obtain rfl : parts = [] := (Except.ok.inj lines).symm
  rw [List.head?_nil, Render.joinSections_singleton] at whole
  have nonempty : frontMatter document none ≠ [] := by simp [front]
  have once := nodup_keys_frontMatter document none
  have closed := closed_frontMatterLines fun _ => loads
  have filled := frontMatterLines_of_given nonempty
  have trimmed : Text.trim (Text.unixLines text.toList) =
      Text.unlines ((frontMatterLines (frontMatter document none)).map String.toList) := by
    rw [filled] at closed whole ⊢
    rw [whole]
    refine closed.trim_text ?_ (by simp)
    rintro c ⟨⟩
    decide
  have splits := @split_frontMatterLines _ _ nonempty once loads [] (by simp)
  rw [List.append_nil, ← trimmed] at splits
  refine ⟨?_, splits⟩
  rw [trimmed, filled]
  obtain ⟨rest, starts, _⟩ := Text.unlines_cons_append "---".toList ((DataFormat.write (frontMatter document none) ++
    ["---"]).map String.toList)
  rw [List.map_cons, starts]
  simp

/-- Without units a text has no heading. -/
theorem read_write_of_unwritten [DataFormat] {settings : RenderSettings} {document : Document} {text : String}
    (written : (write settings document).result = .ok text) (given : text ≠ "")
    (loads : Loads (frontMatter document none)) (empty : writtenUnits document = []) :
    (read none text).result = .error .noUnitHeading :=
  have ⟨filled, splits⟩ := split_write_of_unwritten written given loads empty
  read_of_unheaded filled splits (expressible_metadataOf _) rfl

/-- Lines that start with the heading of a unit are read as sections that start with it, whatever front matter
stands before them. -/
theorem exists_split_headed [DataFormat] {items : List (String × Item)} (once : (Entries.keys items).Nodup)
    (loads : items ≠ [] → Loads items) {unit : RubyUnit} {lines : List String}
    (heading : lines.head? = some (unitHeading unit)) (named : unit.name ≠ "")
    (unindented : Unindented unit.qualifiedName.toList) {text : String}
    (whole : text = "\n".intercalate
      (if items = [] then lines else frontMatterLines items ++ ([""] ++ lines)) ++ "\n") :
    ∃ front part, FrontMatter.split (Text.trim (Text.unixLines text.toList)) = .ok front ∧
      front.metadata = metadataOf items ∧ (sectionsOf text).head? = some part ∧ part.heading.level = 1 ∧
      (Text.Unbroken (unitTitle unit).toList →
        part.heading.title = Text.trimEnd (unitTitle unit).toList) := by
  obtain ⟨c, title, starts, shown⟩ := unitTitle_starts named unindented
  obtain ⟨later, joined⟩ := List.head?_eq_some_iff.mp heading
  obtain ⟨more, chars, follows⟩ := Text.unlines_cons_append (unitHeading unit).toList (later.map String.toList)
  have body : Text.unlines (lines.map String.toList) = '#' :: ' ' :: c :: (title ++ more) := by
    rw [joined, List.map_cons, chars, unitHeading_eq, String.toList_append, starts]
    rfl
  obtain ⟨front, blank, line, following, blanks, metadata, cut, after, splits⟩ :=
    split_headed once loads body shown whole
  have found := congrArg (·.2.head?) (sections_of_heading shown line following)
  refine ⟨front, ⟨⟨1, c :: Text.trimEnd line⟩, (sections (scan false following)).1⟩, splits, metadata, ?_, rfl,
    fun unbroken => ?_⟩
  · rw [sectionsOf_eq splits, cut]
    rcases blanks with rfl | rfl <;> exact found
  · rw [starts] at unbroken ⊢
    have own : Text.Unbroken title := fun d member => unbroken d (by simp [member])
    obtain ⟨others, ends⟩ := follows
    rw [List.append_assoc, ends] at after
    rw [Text.trimEnd_cons_of_shown shown, ← trimEnd_first_line own after]

/-- The text of a document with units is read as front matter for the first one and sections that start with
its heading. -/
theorem exists_split_write [DataFormat] {settings : RenderSettings} {document : Document} {text : String}
    (written : (write settings document).result = .ok text) (given : text ≠ "") {unit : RubyUnit}
    {rest : List RubyUnit} (units : writtenUnits document = unit :: rest) (named : unit.name ≠ "")
    (unindented : Unindented unit.qualifiedName.toList)
    (loads : frontMatter document (some unit) ≠ [] → Loads (frontMatter document (some unit))) :
    ∃ front part, FrontMatter.split (Text.trim (Text.unixLines text.toList)) = .ok front ∧
      front.metadata = frontMetadata document unit ∧ (sectionsOf text).head? = some part ∧
      part.heading.level = 1 ∧
      (Text.Unbroken (unitTitle unit).toList →
        part.heading.title = Text.trimEnd (unitTitle unit).toList) := by
  obtain ⟨_, parts, lines, whole⟩ := write_eq_ok written given
  rw [units] at lines whole
  obtain ⟨first, others, headed, _, rfl⟩ : ∃ first others, (unitLines settings unit).result = .ok first ∧
      rest.mapM (fun unit => (unitLines settings unit).result) = .ok others ∧ parts = first :: others := by
    rw [List.mapM_cons] at lines
    obtain ⟨first, headed, lines⟩ := Except.bind_eq_ok_iff.mp lines
    obtain ⟨others, more, same⟩ := Except.bind_eq_ok_iff.mp lines
    exact ⟨first, others, headed, more, (Except.ok.inj same).symm⟩
  have heading := head?_unitLines headed
  have filled : first ≠ [] := by
    rintro rfl
    cases heading
  rw [List.head?_cons, joinSections_frontMatterLines _ ⟨first, List.mem_cons_self, filled⟩] at whole
  exact exists_split_headed (nodup_keys_frontMatter document (some unit)) loads
    ((Render.head?_joinSections filled others).trans heading) named unindented whole

/-- The text of a document with units is read exactly if its sections are legible. -/
theorem exists_read_write_iff [DataFormat] {settings : RenderSettings} {document : Document} {text : String}
    (written : (write settings document).result = .ok text) (given : text ≠ "") {unit : RubyUnit}
    {rest : List RubyUnit} (units : writtenUnits document = unit :: rest) (flawless : unit.flaw? = none)
    (unindented : Unindented unit.qualifiedName.toList)
    (loads : frontMatter document (some unit) ≠ [] → Loads (frontMatter document (some unit))) :
    (∃ reread, (read none text).result = .ok reread) ↔ Legible (sectionsOf text) := by
  obtain ⟨named, _, apart, _⟩ := RubyUnit.flaw?_eq_none_iff.mp flawless
  obtain ⟨front, part, splits, metadata, headed, level, _⟩ :=
    exists_split_write written given units named.1 unindented loads
  have describes : Describes front.metadata unit := metadata ▸ describes_first document unit
  exact exists_read_iff_legible splits headed level describes apart

/-! ## Plain units -/

private theorem writtenEntry_flawless {method : Method} (sound : method.flaw? = none) :
    (writtenEntry method).Flawless := by
  have entry := @inUnit_writtenEntry method
    { name := "", kind := .cls, scope := [], visibility := method.visibility,
      inSingleton := method.binding == .inSingleton }
    rfl rfl
  rw [Draft.MethodEntry.flawless_iff, entry]
  exact sound

private theorem methodCalls_flawless {key : String} {methods : List Method}
    (plain : ∀ method ∈ methods, PlainMethod method)
    (state : SectionState) : ∀ call ∈ methodCalls key state methods, call.Flawless := by
  induction methods generalizing state with
  | nil => simp [methodCalls]
  | cons method rest ih =>
    have later := ih (fun other member => plain other (List.mem_cons_of_mem _ member)) (nextState state method)
    intro call made
    simp only [methodCalls, List.mem_append, List.mem_cons] at made
    rcases made with before | leaves | rfl | after
    · unfold sectionCalls at before
      split_ifs at before <;> simp only [List.mem_cons, List.not_mem_nil, or_false] at before
      · rw [before]
        trivial
      · rcases before with rfl | rfl <;> trivial
    · split at leaves
      · cases leaves
      · rw [List.mem_singleton.mp leaves]
        trivial
    · exact writtenEntry_flawless (plain method List.mem_cons_self).titled.sound
    · exact later call after

private theorem declarationPairs_flawless {unit : RubyUnit} (plain : PlainDeclarations unit) (key : String) :
    ∀ call ∈ (declarationPairs key unit).map (·.2), call.Flawless := by
  intro call made
  obtain ⟨pair, listed, rfl⟩ := List.mem_map.mp made
  simp only [declarationPairs, List.mem_append, List.mem_map] at listed
  rcases listed with ⟨entry, listed, rfl⟩ | ⟨entry, listed, rfl⟩ | ⟨declaration, listed, rfl⟩
  · obtain ⟨bare, same, given, word⟩ := (plain.classVariables entry listed).1
    rw [Call.Flawless, same, bareVariable_of_named given word]
    exact toList_ne_nil given
  · obtain ⟨⟨c, rest, chars, _⟩, _⟩ := (plain.constants entry listed).1
    intro empty
    rw [empty] at chars
    cases chars
  · obtain ⟨given, named⟩ := plain.allAttributes declaration listed
    exact ⟨given, fun empty => (named "" empty).1 rfl⟩

private theorem writtenCalls_flawless {metadata : Metadata} {opened : Bool} {unit described : RubyUnit}
    (describes : Describes metadata described) (fair : FairUnit unit) :
    ∀ call ∈ writtenCalls metadata opened unit, call.Flawless := by
  have whole : "" ∉ unit.path := fun member => (fair.path "" member).given rfl
  rw [← unitPath_unitTitle fair.path] at whole
  have opening := openingCalls_flawless whole unit.kind
  rw [unitPath_unitTitle fair.path] at opening
  simp only [writtenCalls, List.forall_mem_append]
  refine ⟨⟨opening, fun call front => ?_⟩, declarationPairs_flawless fair.declarations _,
    methodCalls_flawless fair.methods {}⟩
  split at front
  · cases front
  · exact describes.flawless _ _ call front

private theorem writtenCallsAll_flawless {metadata : Metadata} {described : RubyUnit}
    (describes : Describes metadata described) {units : List RubyUnit} (fair : ∀ unit ∈ units, FairUnit unit)
    (opened : Bool) : ∀ call ∈ writtenCallsAll metadata opened units, call.Flawless := by
  induction units generalizing opened with
  | nil => simp [writtenCallsAll]
  | cons unit rest ih =>
    rw [writtenCallsAll, List.forall_mem_append]
    exact ⟨writtenCalls_flawless describes (fair unit List.mem_cons_self),
      ih (fun other member => fair other (List.mem_cons_of_mem _ member)) true⟩

private theorem kindsOf_writtenCalls (metadata : Metadata) (opened : Bool) (unit : RubyUnit) (key : String) :
    Draft.kindsOf key (writtenCalls metadata opened unit) =
      if unit.qualifiedName = key then [unit.kind] else [] := by
  obtain ⟨own, whole, changes⟩ := writtenCalls_eq metadata opened unit
  have holders (paths : List (List String)) : Draft.kindsOf key (paths.map holderCall) = [] := by
    induction paths with
    | nil => rfl
    | cons path rest ih =>
      rw [List.map_cons, Draft.kindsOf_cons, ih]
      split <;> rfl
  have address : (Call.addUnit unit.name unit.kind unit.scope).unit? = some unit.qualifiedName := rfl
  rw [whole, Draft.kindsOf_append, holders, Draft.kindsOf_cons, address,
    Draft.kindsOf_of_unopened fun call member => (changes call member).opens]
  simp [Call.kind?]

private theorem kindsOf_writtenCallsAll (metadata : Metadata) (opened : Bool) (units : List RubyUnit)
    (key : String) :
    Draft.kindsOf key (writtenCallsAll metadata opened units) =
      (units.filter (·.qualifiedName == key)).map (·.kind) := by
  induction units generalizing opened with
  | nil => rfl
  | cons unit rest ih =>
    rw [writtenCallsAll, Draft.kindsOf_append, kindsOf_writtenCalls, ih, List.filter_cons]
    by_cases same : unit.qualifiedName = key <;> simp [same]

/-- The text of units that the notation can hold is read, whatever it cannot hold of them. -/
theorem exists_read_of_fair [DataFormat] {settings : RenderSettings}
    (language : ∀ c ∈ settings.fenceLanguage.toList, isBlank c = false) {document : Document} {unit : RubyUnit}
    {rest : List RubyUnit} (fair : ∀ other ∈ unit :: rest, FairUnit other)
    (once : ((unit :: rest).map (·.qualifiedName)).Nodup)
    (apart : ∀ name ∈ unit.aliases.keys, name ∉ unit.aliasMethods.keys)
    (loads : frontMatter document (some unit) ≠ [] → Loads (frontMatter document (some unit))) :
    ∃ reread, (read none ("\n".intercalate (documentLines settings document (unit :: rest)) ++ "\n")).result =
      .ok reread := by
  have describes := describes_first document unit
  have follows := sectionsCalls_textLines language describes.untyped describes.expressible (List.cons_ne_nil unit rest) fair
  refine exists_read_iff.mpr ⟨_, callsOf_write language fair loads none, fun key => ?_⟩
  rw [Draft.consistent_append_of_unaddressed (documentCalls_elsewhere _ key)]
  refine ⟨sectionsCalls_openedFirst follows (by simp), fun call made _ =>
    writtenCallsAll_flawless describes fair false call made, ?_, describes.sectionsCalls_apart apart follows key⟩
  rw [kindsOf_writtenCallsAll]
  intro kind member other listed
  obtain ⟨first, kept, rfl⟩ := List.mem_map.mp member
  obtain ⟨second, held, rfl⟩ := List.mem_map.mp listed
  simp only [List.mem_filter, beq_iff_eq] at kept held
  rw [List.inj_on_of_nodup_map once kept.1 held.1 (kept.2.trans held.2.symm)]

end LiterateRuby.Literate

namespace LiterateRuby

open Literate

/-- The text of a document that is read from a text or a syntax tree is read again exactly if some unit is
more than a namespace and the sections of the text are legible, which they are if the notation can hold the
units. If no unit is more than a namespace, then the text is refused for want of a heading. -/
theorem Document.Returned.read_write_iff [DataFormat] {document : Document}
    (returned : document.Returned)
    {settings : RenderSettings} {text : String} (written : (write settings document).result = .ok text)
    (given : text ≠ "")
    (loads : frontMatter document (writtenUnits document).head? ≠ [] →
      DataFormat.Loads (frontMatter document (writtenUnits document).head?)) :
    (writtenUnits document = [] → (Literate.read none text).result = .error .noUnitHeading) ∧
      ((∃ reread, (Literate.read none text).result = .ok reread) ↔
        writtenUnits document ≠ [] ∧ Legible (sectionsOf text)) ∧
      ((∀ c ∈ settings.fenceLanguage.toList, Text.isBlank c = false) →
        (∀ unit ∈ writtenUnits document, PlainUnit unit) → writtenUnits document ≠ [] →
          Legible (sectionsOf text)) := by
  obtain ⟨flawless, sound⟩ := returned.flawless
  cases units : writtenUnits document with
  | nil =>
    have loads : DataFormat.Loads (frontMatter document none) := by
      rw [units, List.head?_nil] at loads
      exact loads (by simp [frontMatter_none ((write_eq_ok written given).1 units)])
    have refused := read_write_of_unwritten written given loads units
    simp [refused]
  | cons unit rest =>
    have member : unit ∈ document.units := (List.mem_filter.mp (units ▸ List.mem_cons_self)).1
    rw [units, List.head?_cons] at loads
    have legible := exists_read_write_iff written given units (sound unit member)
      (returned.unindented unit member) loads
    refine ⟨by simp, by simp [legible], fun language plain _ => legible.mp ?_⟩
    have once : ((writtenUnits document).map (·.qualifiedName)).Nodup :=
      (List.filter_sublist.map _).nodup (Document.flaw?_eq_none_iff.mp flawless).1
    have fair : ∀ other ∈ unit :: rest, FairUnit other := fun other member => (plain other member).fair
    have whole := @write_result _ settings document (by simp [units]) (units ▸ fair)
    rw [written, units] at whole
    rw [Except.ok.inj whole]
    have apart := (RubyUnit.flaw?_eq_none_iff.mp (sound unit member)).2.2.1
    exact exists_read_of_fair language fair (units ▸ once) apart loads

namespace Ruby

/-- A file that only requires another one. -/
def requireJson : Scene where
  source := .ofText "require 'json'\n"
  root := .node { kind := "program", start := 0, stop := 15 }
    [.node { kind := "call", start := 0, stop := 14 }
      [.node { kind := "identifier", start := 0, stop := 7, field := some "method" } [],
        .node { kind := "argument_list", start := 8, stop := 14, field := some "arguments" }
          [.node { kind := "string", start := 8, stop := 14 }
            [.node { kind := "string_content", start := 9, stop := 13 } []]]]]

end Ruby

/-- The text of a file that only requires another one is refused. -/
theorem Document.Returned.read_write_iff_of_require :
    ∃ document, (Ruby.walk Ruby.requireJson (Draft.empty none)).result = .ok document ∧
      (write .default document).result = .ok "---\nrequire:\n- json\n---\n" ∧
      (Literate.read none "---\nrequire:\n- json\n---\n").result = .error .noUnitHeading := by
  have walks : (Ruby.walk Ruby.requireJson (Draft.empty none)).result.toOption.map (fun document =>
      (decide ((write .default document).result = .ok "---\nrequire:\n- json\n---\n"),
        (writtenUnits document).isEmpty, frontMatter document none)) =
      some (true, true, [("require", .texts ["json"])]) := by
    decide +kernel
  obtain ⟨document, success, seen⟩ := Except.exists_of_toOption walks
  rw [Prod.mk.injEq, Prod.mk.injEq, decide_eq_true_iff, List.isEmpty_iff] at seen
  obtain ⟨written, units, front⟩ := seen
  have loads : DataFormat.Loads (frontMatter document none) := Yaml.loads_of_single front (by decide +kernel)
  refine ⟨document, success, written,
    (Document.Returned.read_write_iff (.walk success) written (by decide) ?_).1 units⟩
  rw [units, List.head?_nil]
  exact fun _ => loads

end LiterateRuby
