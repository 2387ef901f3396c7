import LiterateRuby.Proofs.Literate.DeclaredNames
import LiterateRuby.Proofs.Literate.Fences
import LiterateRuby.Proofs.Literate.Headed
import LiterateRuby.Proofs.Ruby.Assignment

/-! # Declarations that are read again

A unit without its methods is written as its heading and one declaration after the other. Source code is freer
than the notation: it names constants in any script, and a value can have several lines, which the notation reads
one by one. So names can be lost, and a line of a value can declare a name or open a unit.
`declarations_reread` tells which names come back: those that the sections of the text assign to the unit
(`Names`), which are those that the notation can hold if values are not mistaken for anything (`Quiet`).
-/

namespace LiterateRuby.Literate

open Draft (Assignment)
open Render (textOf)

/-! ## Names -/

/-- A document keeps the names of a unit: it has a unit of the same name with the same constants and class
variables in the same order, no other units but those around it, and no methods. -/
structure Keeps (unit : RubyUnit) (document : Document) : Prop where
  names : ∃ twin ∈ document.units, twin.qualifiedName = unit.qualifiedName ∧
    twin.constants.keys = unit.constants.keys ∧ twin.classVariables.keys = unit.classVariables.keys
  alone : ∀ other ∈ document.units, Around other.qualifiedName unit.qualifiedName
  methodless : ∀ other ∈ document.units, other.methods = []

/-- Sections that say all that they should of a unit and its names: they can be read, none of them is a method or
opens a unit that is not around the unit, one of them opens the unit, and the names that they assign first to last
are those of the unit. -/
structure Names (unit : RubyUnit) (parts : List Section) : Prop where
  legible : Legible parts
  methodless : ∀ part ∈ parts, part.heading.isMethod = false
  alone : ∀ stretch ∈ (stretches parts).2, Around stretch.unit unit.qualifiedName
  opened : ∃ stretch ∈ (stretches parts).2, stretch.unit = unit.qualifiedName
  names : ∀ shared, Text.distinct (Assignment.names shared (assignmentsIn unit.qualifiedName none parts)) =
    (unit.values shared).keys

section Headed

variable [DataFormat] {text : String} {front : FrontMatter} {part : Section}
  (splits : FrontMatter.split (Text.trim (Text.unixLines text.toList)) = .ok front)
  (headed : (sectionsOf text).head? = some part) (first : part.heading.level = 1)
  (silent : frontAssignments front.metadata = [])
include splits headed first silent

private theorem keys_values_of_read {document : Document} (success : (read none text).result = .ok document)
    {twin : RubyUnit} (member : twin ∈ document.units) (shared : Bool) :
    (twin.values shared).keys =
      Text.distinct (Assignment.names shared (assignmentsIn twin.qualifiedName none (sectionsOf text))) := by
  obtain ⟨other, parts, same, cut, values⟩ := read_values success
  cases splits.symm.trans same
  cases (textSections?_of_headed splits headed first none).symm.trans cut
  rw [values twin member shared, silent, ite_self, List.nil_append, Assignment.keys_values]

/-- A text keeps the names of a unit exactly if its sections name them. -/
theorem exists_keeps_iff {unit : RubyUnit}
    (reads : (∃ document, (read none text).result = .ok document) ↔ Legible (sectionsOf text)) :
    (∃ document, (read none text).result = .ok document ∧ Keeps unit document) ↔
      Names unit (sectionsOf text) := by
  constructor
  · rintro ⟨document, success, keeps⟩
    obtain ⟨twin, member, same, constants, classVariables⟩ := keeps.names
    have alone : ∀ stretch ∈ (stretches (sectionsOf text)).2, Around stretch.unit unit.qualifiedName := by
      intro stretch listed
      obtain ⟨other, among, own⟩ := exists_unit_of_stretch splits headed first success listed
      exact own ▸ keeps.alone other among
    obtain ⟨stretch, listed, around⟩ := around_of_read splits headed first success member
    refine ⟨reads.mp ⟨document, success⟩, (methodless_iff splits headed first success).mp keeps.methodless, alone,
      ⟨stretch, listed, (alone stretch listed).antisymm (same ▸ around)⟩, fun shared => ?_⟩
    rw [← same, ← keys_values_of_read splits headed first silent success member]
    cases shared with
    | false => exact constants
    | true => exact classVariables
  · intro names
    obtain ⟨document, success⟩ := reads.mpr names.legible
    obtain ⟨opening, found, own⟩ := names.opened
    obtain ⟨twin, member, same⟩ := exists_unit_of_stretch splits headed first success found
    have keys (shared : Bool) : (twin.values shared).keys = (unit.values shared).keys := by
      rw [keys_values_of_read splits headed first silent success member, same, own, names.names]
    refine ⟨document, success, ⟨twin, member, same.trans own, keys false, keys true⟩, fun other among => ?_,
      (methodless_iff splits headed first success).mpr names.methodless⟩
    obtain ⟨stretch, listed, around⟩ := around_of_read splits headed first success among
    exact around.trans (names.alone stretch listed)

end Headed

/-! ## Written declarations -/

/-- The lines of a unit without its methods. -/
def blockLines (unit : RubyUnit) : List String :=
  Render.joinSections [[unitHeading unit], declarationTexts unit]

private theorem unitLines_of_methodless {unit : RubyUnit}
    (written : ∀ entry ∈ unit.classVariables ++ unit.constants, entry.2.literal = .ok (sourceOf entry.2))
    (settings : RenderSettings) :
    (unitLines settings { unit with methods := [] }).result = .ok (blockLines unit) := by
  obtain ⟨classWide, constants⟩ := List.forall_mem_append.mp written
  have declarations : declarationLines { unit with methods := [] } = .ok (declarationTexts unit) := by
    unfold declarationLines
    rw [assignments_eq classWide, assignments_eq constants, attributeLines_eq, declarationTexts,
      ← List.append_assoc]
    rfl
  simp [unitLines, declarations, methodSections, blockLines, unitHeading, RubyUnit.kind, RubyUnit.path]

private theorem head?_blockLines (unit : RubyUnit) : (blockLines unit).head? = some (unitHeading unit) :=
  Render.head?_joinSections (by simp) _

section Quiet

variable {declared : List String} (quiet : ∀ text ∈ declared, Quiet text)
include quiet

/-- Quiet texts, joined, have no blanks around them and no carriage returns in them. -/
theorem trimmed_quiet : Text.Trimmed (Text.unlines (declared.map String.toList)) ∧
    '\r' ∉ Text.unlines (declared.map String.toList) := by
  constructor
  · refine Text.trimmed_unlines fun line member => ?_
    obtain ⟨text, listed, rfl⟩ := List.mem_map.mp member
    exact ⟨(quiet text listed).trimmed, toList_ne_nil (quiet text listed).given⟩
  · intro inside
    rcases Text.mem_unlines inside with feed | ⟨line, member, within⟩
    · exact absurd feed (by decide)
    · obtain ⟨text, listed, rfl⟩ := List.mem_map.mp member
      exact (quiet text listed).unix within

omit quiet in
private theorem lines_declared (given : declared ≠ []) :
    Text.lines (Text.unlines (declared.map String.toList)) = linesOfAll declared := by
  rw [Text.lines_unlines_flatMap (by simpa using given), List.flatMap_map, linesOfAll]

/-- Behind the title of a unit its declarations are read line by line. -/
theorem lines_behind_title {title : List Char} (unbroken : Text.Unbroken title) (nonempty : declared ≠ []) :
    Text.lines (Text.trimEnd (Text.unixLines
      (title ++ ['\n', '\n'] ++ Text.unlines (declared.map String.toList) ++ ['\n']))) =
      title :: [] :: linesOfAll declared := by
  obtain ⟨trimmed, unix⟩ := trimmed_quiet quiet
  have filled : Text.unlines (declared.map String.toList) ≠ [] := by
    obtain ⟨text, rest, rfl⟩ := List.exists_cons_of_ne_nil nonempty
    intro empty
    have given := toList_ne_nil (quiet text List.mem_cons_self).given
    have head := Text.head?_unlines given (rest.map String.toList)
    rw [← List.map_cons, empty, List.head?_nil, eq_comm, List.head?_eq_none_iff] at head
    exact given head
  have plain : '\r' ∉ title ++ ['\n', '\n'] ++ Text.unlines (declared.map String.toList) ++ ['\n'] := by
    simp only [List.mem_append, List.mem_cons, List.not_mem_nil, or_false, not_or]
    exact ⟨⟨⟨fun inside => (unbroken _ inside).2 rfl, by decide⟩, unix⟩, by decide⟩
  have shown := Text.trimEnd_append (trimmed.not_allBlank filled) (title ++ ['\n', '\n'])
  rw [Text.trimEnd_eq_self trimmed.2] at shown
  have cut : Text.lines (title ++ '\n' :: ([] ++ '\n' :: Text.unlines (declared.map String.toList))) =
      title :: [] :: Text.lines (Text.unlines (declared.map String.toList)) := by
    rw [Text.lines, Text.splitOn_append, Text.splitOn_append, Text.splitOn_of_absent unbroken.flat]
    rfl
  rw [Text.unixLines_eq_self plain, Text.trimEnd_append_of_blank (by decide), shown, ← lines_declared nonempty, ← cut,
    List.append_assoc]
  rfl

end Quiet

private theorem sections_of_inert {c : Char} (shown : Text.isBlank c = false) (first : List Char)
    {more : List (List Char)} (inert : ∀ line ∈ more, isFence line = false ∧ headingParts? line = none) :
    sections (scan false (('#' :: ' ' :: c :: first) :: more)) = ([], [⟨⟨1, c :: Text.trimEnd first⟩, more⟩]) := by
  have contents : scan false more = more.map .content := by
    rw [scan_eq_contents_iff]
    exact sheltered_of_unlike (fun line member => by simp [looksLikeHeading, (inert line member).2]) false
  have cut := sections_content more []
  rw [List.append_nil, ← contents] at cut
  rw [sections_of_heading shown, cut]
  simp [sections]

/-- Lines that start with a unit heading and hold no other one are read as one section. -/
theorem sectionsOf_of_inert [DataFormat] {lines : List String} {c : Char} {rest first : List Char}
    {more : List (List Char)} (starts : Text.unlines (lines.map String.toList) = '#' :: ' ' :: c :: rest)
    (shown : Text.isBlank c = false)
    (after : Text.lines (Text.trimEnd (Text.unixLines (rest ++ ['\n']))) = first :: more)
    (inert : ∀ line ∈ more, isFence line = false ∧ headingParts? line = none) :
    sectionsOf (textOf lines) = [⟨⟨1, c :: Text.trimEnd first⟩, more⟩] := by
  have filled : lines ≠ [] := by
    rintro rfl
    cases starts
  have whole : textOf lines = "\n".intercalate lines ++ "\n" := by rw [textOf, if_neg (by simpa using filled)]
  obtain ⟨front, blank, line, others, blanks, -, cut, following, splits⟩ :=
    @split_headed _ [] List.nodup_nil (by simp) lines c rest starts shown _ whole
  rw [after] at following
  obtain ⟨rfl, rfl⟩ := List.cons.inj following
  have found := congrArg (·.2) (sections_of_inert shown first inert)
  rw [sectionsOf_eq splits, cut]
  rcases blanks with rfl | rfl <;> exact found

section Block

variable {unit : RubyUnit} {c : Char} {title : List Char} (starts : (unitTitle unit).toList = c :: title)
  (shown : Text.isBlank c = false) (unbroken : Text.Unbroken title)
include starts

private theorem toList_unitHeading : (unitHeading unit).toList = '#' :: ' ' :: c :: title := by
  rw [unitHeading_eq, String.toList_append, starts]
  rfl

variable [DataFormat]
include shown unbroken

/-- A unit without declarations is a section without text. -/
theorem sectionsOf_heading (empty : declarationTexts unit = []) :
    sectionsOf (textOf (blockLines unit)) = [⟨⟨1, c :: Text.trimEnd (Text.trimEnd title)⟩, []⟩] := by
  have body : Text.unlines ((blockLines unit).map String.toList) = '#' :: ' ' :: c :: title := by
    rw [← toList_unitHeading starts, blockLines, empty]
    rfl
  have plain : '\r' ∉ title ++ ['\n'] := by
    simpa using fun inside => (unbroken '\r' inside).2 rfl
  have flat : Text.Flat (Text.trimEnd title) := fun inside =>
    unbroken.flat ((Text.trimEnd_starts title).subset inside)
  have after : Text.lines (Text.trimEnd (Text.unixLines (title ++ ['\n']))) = [Text.trimEnd title] := by
    rw [Text.unixLines_eq_self plain, Text.trimEnd_append_of_blank (by decide)]
    exact Text.splitOn_of_absent flat
  exact sectionsOf_of_inert body shown after (by simp)

/-- Quiet declarations are the text of the only section. -/
theorem sectionsOf_declared (given : declarationTexts unit ≠ []) (quiet : ∀ text ∈ declarationTexts unit, Quiet text) :
    sectionsOf (textOf (blockLines unit)) =
      [⟨⟨1, c :: Text.trimEnd title⟩, [] :: linesOfAll (declarationTexts unit)⟩] := by
  have joined : blockLines unit = unitHeading unit :: "" :: declarationTexts unit := by
    rw [blockLines, Render.joinSections_cons (by simp) ⟨_, List.mem_singleton_self _, given⟩,
      Render.joinSections_singleton]
    rfl
  have apart : Text.unlines ([(unitHeading unit).toList] ++ [] :: (declarationTexts unit).map String.toList) = _ :=
    Text.unlines_append_nil_cons (by simp) (by simpa using given)
  have body : Text.unlines ((blockLines unit).map String.toList) = '#' :: ' ' :: c ::
      (title ++ ['\n', '\n'] ++ Text.unlines ((declarationTexts unit).map String.toList)) := by
    rw [joined, List.map_cons, List.map_cons]
    refine apart.trans ?_
    rw [Text.unlines, Text.joinOn, toList_unitHeading starts]
    rfl
  have inert : ∀ line ∈ [] :: linesOfAll (declarationTexts unit),
      isFence line = false ∧ headingParts? line = none := by
    refine List.forall_mem_cons.mpr ⟨by decide, fun line member => ?_⟩
    obtain ⟨text, listed, within⟩ := List.mem_flatMap.mp member
    exact (quiet text listed).inert line within
  exact sectionsOf_of_inert body shown (lines_behind_title quiet unbroken given) inert

end Block

/-- Quiet declarations are read as the only section. -/
theorem sectionsOf_block [DataFormat] {unit : RubyUnit} (named : unit.name ≠ "")
    (unindented : Text.Unindented unit.qualifiedName.toList) (unbroken : Text.Unbroken (unitTitle unit).toList)
    (quiet : ∀ text ∈ declarationTexts unit, Quiet text) :
    ∃ part, sectionsOf (textOf (blockLines unit)) = [part] ∧
      Text.lines (Text.trim (Text.unlines part.text)) =
        if declarationTexts unit = [] then [[]] else linesOfAll (declarationTexts unit) := by
  obtain ⟨c, title, starts, shown⟩ := unitTitle_starts named unindented
  have own : Text.Unbroken title := fun d member => unbroken d (by simp [starts, member])
  by_cases empty : declarationTexts unit = []
  · refine ⟨_, sectionsOf_heading starts shown own empty, ?_⟩
    rw [if_pos empty]
    rfl
  · have lines := lines_declared empty
    have joins : Text.unlines (linesOfAll (declarationTexts unit)) =
        Text.unlines ((declarationTexts unit).map String.toList) := by rw [← lines, Text.unlines_lines]
    refine ⟨_, sectionsOf_declared starts shown own empty quiet, ?_⟩
    rw [if_neg empty, Text.trim_unlines_nil_cons, joins, (trimmed_quiet quiet).1.trim_eq, lines]

/-- What quiet declarations give the unit that they are written for. -/
theorem names_of_quiet {unit : RubyUnit} {part : Section} (level : part.heading.level = 1)
    (named : unitKey part.heading.title = unit.qualifiedName) (legible : LegibleLines part.text)
    (text : Text.lines (Text.trim (Text.unlines part.text)) =
      if declarationTexts unit = [] then [[]] else linesOfAll (declarationTexts unit))
    (source : ∀ shared, ∀ name ∈ (unit.values shared).keys, SourceName shared name)
    (quiet : ∀ text ∈ declarationTexts unit, Quiet text) (shared : Bool) :
    Assignment.names shared (assignmentsIn unit.qualifiedName none [part]) = heldNames shared unit := by
  have plain : part.heading.isMethod = false := by simp [Heading.isMethod, level]
  have own : assignmentsIn unit.qualifiedName none [part] = assignmentsOf part.text := by
    simp [assignmentsIn, level, named, Section.assignments, plain]
  rw [own, assignmentsOf, names_filterMap legible, text, ← declaredNames_declarationTexts source quiet shared]
  split
  · next empty =>
    rw [empty]
    cases shared <;> decide
  · rfl

/-- What becomes of the declarations of a unit that source code defines. They can be written. They are read again
exactly if the sections that they make are legible, and nothing is lost or invented exactly if those sections name
the unit, its constants and its class variables, and nothing else. Where only the first lines of declarations say
anything, the names that the notation can hold come back in their order, and all others are lost. -/
theorem declarations_reread [DataFormat] {scene : Ruby.Scene} {filename : Option String} {document : Document}
    (success : (Ruby.walk scene (Draft.empty filename)).result = .ok document) (settings : RenderSettings) :
    ∀ unit ∈ document.units, ∃ lines, (unitLines settings { unit with methods := [] }).result = .ok lines ∧
      ((∃ reread, (read none (textOf lines)).result = .ok reread) ↔ Legible (sectionsOf (textOf lines))) ∧
      ((∃ reread, (read none (textOf lines)).result = .ok reread ∧ Keeps unit reread) ↔
        Names unit (sectionsOf (textOf lines))) ∧
      (NamesAgain unit → (∀ text ∈ declarationTexts unit, Quiet text) →
        (∀ shared, ∀ name ∈ (unit.values shared).keys, SourceName shared name) →
          Legible (sectionsOf (textOf lines)) → ∃ reread, (read none (textOf lines)).result = .ok reread ∧
            (∀ other ∈ reread.units, Around other.qualifiedName unit.qualifiedName ∧ other.methods = []) ∧
              ∃ twin ∈ reread.units, twin.qualifiedName = unit.qualifiedName ∧
                ∀ shared, (twin.values shared).keys = heldNames shared unit) := by
  intro unit member
  obtain ⟨events, paths, -, -, assigned⟩ := Ruby.assigned_of_walk success
  have held := assigned unit member
  have returned : document.Returned := .walk success
  have named := (RubyUnit.flaw?_eq_none_iff.mp (returned.flawless.2 unit member)).1.1
  have unindented := returned.unindented unit member
  have filled : blockLines unit ≠ [] := fun empty => by
    have head := head?_blockLines unit
    rw [empty] at head
    cases head
  have whole : textOf (blockLines unit) = "\n".intercalate (blockLines unit) ++ "\n" := by
    rw [textOf, if_neg (by simpa using filled)]
  obtain ⟨front, part, splits, metadata, headed, level, title⟩ :=
    @exists_split_headed _ [] List.nodup_nil (by simp) unit _ (head?_blockLines unit) named unindented _ whole
  have plain : front.metadata = [] := metadata
  have silent : frontAssignments front.metadata = [] := by rw [plain]; rfl
  have reads := exists_read_iff_of_plain splits headed level plain
  refine ⟨blockLines unit, unitLines_of_methodless held.written settings, reads,
    exists_keeps_iff splits headed level silent reads, fun again quiet source legible => ?_⟩
  obtain ⟨reread, succeeds⟩ := reads.mpr legible
  obtain ⟨block, parts, told⟩ := sectionsOf_block named unindented again.unbroken quiet
  obtain rfl : block = part := by
    rw [parts] at headed
    exact Option.some.inj headed
  have key : unitKey block.heading.title = unit.qualifiedName := by rw [title again.unbroken, again.named]
  have single : (stretches (sectionsOf (textOf (blockLines unit)))).2 = [⟨block.heading.title, []⟩] := by
    rw [parts, stretches, if_pos level]
    rfl
  obtain ⟨twin, among, own⟩ :=
    exists_unit_of_stretch splits headed level succeeds (single ▸ List.mem_singleton_self _)
  have same : twin.qualifiedName = unit.qualifiedName := own.trans key
  have methodless := (methodless_iff splits headed level succeeds).mpr (by simp [parts, Heading.isMethod, level])
  refine ⟨reread, succeeds, fun other listed => ⟨?_, methodless other listed⟩, twin, among, same, fun shared => ?_⟩
  · obtain ⟨stretch, opened, around⟩ := around_of_read splits headed level succeeds listed
    obtain rfl := List.mem_singleton.mp (single ▸ opened)
    exact key ▸ around
  · have lines : LegibleLines block.text := (legible.each block (by simp [parts])).declarations (by
      simp [Heading.isMethod, level])
    have once : (unit.values shared).keys.Nodup := by
      cases shared with
      | false => exact (congrArg Entries.keys held.constants) ▸ Entries.nodup_keys_ofPairs _
      | true => exact (congrArg Entries.keys held.classVariables) ▸ Entries.nodup_keys_ofPairs _
    rw [keys_values_of_read splits headed level silent succeeds among, same, parts,
      names_of_quiet level key lines told source quiet shared, heldNames, Text.distinct_of_nodup (once.filter _)]

/-- A class with a value of several lines under a name that the notation can hold and a number under one that it
cannot hold. -/
def halfHeld : Ruby.Scene where
  source := .ofText "class A\n  B = [\n    1\n  ]\n  Foo = 2\nend\n"
  root := .node { kind := "program", start := 0, stop := 40 }
    [.node { kind := "class", start := 0, stop := 39 }
      [.node { kind := "constant", start := 6, stop := 7, field := some "name" } [],
        .node { kind := "body_statement", start := 10, stop := 35, field := some "body" }
          [.node { kind := "assignment", start := 10, stop := 25 }
            [.node { kind := "constant", start := 10, stop := 11, field := some "left" } [],
              .node { kind := "array", start := 14, stop := 25, field := some "right" }
                [.node { kind := "integer", start := 20, stop := 21 } []]],
            .node { kind := "assignment", start := 28, stop := 35 }
              [.node { kind := "constant", start := 28, stop := 31, field := some "left" } [],
                .node { kind := "integer", start := 34, stop := 35, field := some "right" } []]]]]

/-- Of `B` and `Foo` the notation keeps `B` alone. -/
theorem declarations_reread_of_halfHeld :
    ∃ document, (Ruby.walk halfHeld (Draft.empty none)).result = .ok document ∧
      ∃ unit ∈ document.units, unit.qualifiedName = "A" ∧ unit.constants.keys = ["B", "Foo"] ∧
        (unitLines .default { unit with methods := [] }).result = .ok ["# A", "", "B = [\n    1\n  ]", "Foo = 2"] ∧
        ∃ reread, (read none "# A\n\nB = [\n    1\n  ]\nFoo = 2\n").result = .ok reread ∧
          ∃ twin ∈ reread.units, twin.qualifiedName = "A" ∧ twin.constants.keys = ["B"] := by
  have reads : (Ruby.walk halfHeld (Draft.empty none)).result.toOption.map (fun document =>
      document.units.map fun unit => (unit.path, unit.constants.keys, unit.classVariables.keys)) =
        some [(["A"], ["B", "Foo"], [])] := by decide +kernel
  have texts : (Ruby.walk halfHeld (Draft.empty none)).result.toOption.map (fun document =>
      document.units.map fun unit => (declarationTexts unit, blockLines unit)) =
        some [(["B = [\n    1\n  ]", "Foo = 2"], ["# A", "", "B = [\n    1\n  ]", "Foo = 2"])] := by decide +kernel
  obtain ⟨document, success, units⟩ := Except.exists_of_toOption reads
  rw [success] at texts
  obtain ⟨unit, others, listed, held, -⟩ := List.map_eq_cons_iff.mp units
  have member : unit ∈ document.units := by rw [listed]; exact List.mem_cons_self
  rw [Prod.mk.injEq, Prod.mk.injEq] at held
  obtain ⟨path, constants, classVariables⟩ := held
  obtain ⟨declarations, block⟩ : declarationTexts unit = ["B = [\n    1\n  ]", "Foo = 2"] ∧
      blockLines unit = ["# A", "", "B = [\n    1\n  ]", "Foo = 2"] := by
    have shown : document.units.map (fun unit => (declarationTexts unit, blockLines unit)) = _ :=
      Option.some.inj texts
    rw [listed] at shown
    exact Prod.mk.inj (List.cons.inj shown).1
  have named : unit.qualifiedName = "A" := by rw [RubyUnit.qualifiedName, path]; rfl
  have again : NamesAgain unit := namesAgain_of_bare fun name among => by
    rw [path, List.mem_singleton] at among
    exact among ▸ bareName_of_shown (by decide) (by simp; decide)
  have source : ∀ shared, ∀ name ∈ (unit.values shared).keys, SourceName shared name := by
    intro shared name given
    cases shared with
    | true =>
      have inside : name ∈ unit.classVariables.keys := given
      rw [classVariables] at inside
      cases inside
    | false =>
      have inside : name ∈ unit.constants.keys := given
      rw [constants] at inside
      have all : ∀ name ∈ ["B", "Foo"], SourceConstant name := by decide +kernel
      exact all name inside
  obtain ⟨lines, written, readable, -, quietly⟩ := declarations_reread success .default unit member
  obtain ⟨_, _, _, _, assigned⟩ := Ruby.assigned_of_walk success
  obtain rfl : lines = blockLines unit :=
    Except.ok.inj (written.symm.trans (unitLines_of_methodless (assigned unit member).written .default))
  have text : textOf (blockLines unit) = "# A\n\nB = [\n    1\n  ]\nFoo = 2\n" := by rw [block]; decide +kernel
  rw [text] at readable quietly
  have succeeds := Except.exists_of_isOk
    (show (read none "# A\n\nB = [\n    1\n  ]\nFoo = 2\n").result.isOk = true by decide +kernel)
  obtain ⟨reread, reads, -, twin, among, same, keys⟩ := quietly again (by rw [declarations]; decide +kernel) source
    (readable.mp succeeds)
  have kept : twin.constants.keys = heldNames false unit := keys false
  have values : (unit.values false).keys = ["B", "Foo"] := constants
  rw [heldNames, values] at kept
  exact ⟨document, success, unit, member, named, constants, block ▸ written, reread, reads, twin, among,
    same.trans named, kept.trans (by decide +kernel)⟩

end LiterateRuby.Literate
