import LiterateRuby.Proofs.Draft.Independent
import LiterateRuby.Proofs.Literate.Proper
import LiterateRuby.Proofs.Literate.Section
import LiterateRuby.Session

/-! # One text after another

What a reader carries from line to line is neutral where a text with closed fences ends and another one
starts with a unit heading: no fence is open, the heading ends the section before it, and the unit under it
takes no notice of the units before. So a text after another one is read as the two texts are, if they
name no unit in common (`read_append`).
-/

namespace LiterateRuby.Literate

open Draft (Call)

/-- A text that starts with a unit heading and has no blanks around it. Such a text has no front matter. -/
structure Headed (text : String) : Prop where
  trimmed : Text.Trimmed text.toList
  starts : ∃ line rest heading, Text.lines (Text.unixLines text.toList) = line :: rest ∧
    heading? line = some heading ∧ heading.level = 1

/-- The lines of a text, without regard to how they end. -/
def linesIn (text : String) : List (List Char) := Text.lines (Text.unixLines text.toList)

def partsOf (text : String) : List Section := (sections (scan false (linesIn text))).2

/-! ## Lines and sections -/

/-- A line that is read as a heading starts with a number sign. -/
theorem sign_of_heading {line : List Char} {heading : Heading} (found : heading? line = some heading) :
    ∃ rest, line = '#' :: rest := by
  cases line with
  | nil => cases found
  | cons c rest =>
    by_cases sign : c = '#'
    · exact ⟨rest, by rw [sign]⟩
    · rw [heading?, headingParts?_of_head sign] at found
      cases found

private theorem isFence_of_heading {line : List Char} {heading : Heading} (found : heading? line = some heading) :
    isFence line = false := by
  obtain ⟨rest, rfl⟩ := sign_of_heading found
  exact isFence_of_head (by decide) (by decide) (by decide)

private theorem Headed.scan_eq {text : String} (headed : Headed text) :
    ∃ heading rest, scan false (linesIn text) = .heading heading :: rest ∧ heading.level = 1 := by
  obtain ⟨line, rest, heading, lines, found, level⟩ := headed.starts
  exact ⟨heading, scan false rest, by
    rw [linesIn, lines, scan_of_heading (isFence_of_heading found) found], level⟩

private theorem Headed.partsOf_eq {text : String} (headed : Headed text) :
    ∃ part rest, partsOf text = part :: rest ∧ part.heading.level = 1 := by
  obtain ⟨heading, rest, same, level⟩ := headed.scan_eq
  exact ⟨⟨heading, (sections rest).1⟩, (sections rest).2, by rw [partsOf, same, sections], level⟩

/-- A heading ends the section before it. -/
theorem sections_append_heading (first : List Line) (heading : Heading) (rest : List Line) :
    sections (first ++ .heading heading :: rest) =
      ((sections first).1, (sections first).2 ++ (sections (.heading heading :: rest)).2) := by
  induction first with
  | nil => rfl
  | cons line more ih =>
    cases line with
    | content text => rw [List.cons_append, sections, ih, sections]
    | heading other =>
      rw [List.cons_append, sections, ih, sections]
      rfl

private theorem Headed.linesIn_append {above : String} (headed : Headed above) (below : String) :
    linesIn (above ++ "\n" ++ below) = linesIn above ++ linesIn below := by
  have chars : (above ++ "\n" ++ below).toList = above.toList ++ '\n' :: below.toList := by simp
  unfold linesIn
  rw [chars, headed.trimmed.unixLines_append]
  exact Text.splitOn_append '\n' _ _

/-- The sections of a text with closed fences are not touched by what follows it. -/
theorem Headed.partsOf_append {above below : String} (aboveHeaded : Headed above) (belowHeaded : Headed below)
    (closed : (linesIn above).countP isFence % 2 = 0) :
    partsOf (above ++ "\n" ++ below) = partsOf above ++ partsOf below := by
  obtain ⟨heading, rest, same, _⟩ := belowHeaded.scan_eq
  unfold partsOf
  rw [aboveHeaded.linesIn_append, scan_append, closed, Bool.false_xor]
  change (sections (_ ++ scan false (linesIn below))).2 = _
  rw [same, sections_append_heading]

private theorem Headed.append {above below : String} (aboveHeaded : Headed above) (belowHeaded : Headed below) :
    Headed (above ++ "\n" ++ below) := by
  have given {text : String} (headed : Headed text) : text.toList ≠ [] := by
    intro empty
    obtain ⟨line, rest, heading, lines, found, _⟩ := headed.starts
    rw [empty] at lines
    cases lines
    cases found
  refine ⟨?_, ?_⟩
  · have around := aboveHeaded.trimmed.around belowHeaded.trimmed (given aboveHeaded) (given belowHeaded) ['\n']
    simpa using around
  · obtain ⟨line, rest, heading, lines, found, level⟩ := aboveHeaded.starts
    have both := aboveHeaded.linesIn_append below
    unfold linesIn at both
    exact ⟨line, rest ++ linesIn below, heading, by rw [both, lines]; rfl, found, level⟩

/-! ## Calls -/

/-- A text that starts with a unit heading makes the calls of its sections. -/
theorem Headed.callsOf_eq_ok_iff [DataFormat] {text : String} (headed : Headed text) {filename : Option String}
    {calls : List Call} :
    callsOf filename text = .ok calls ↔
      ∃ parts, sectionsCalls [] none (partsOf text) = .ok parts ∧ calls = documentCalls [] ++ parts := by
  obtain ⟨line, rest, heading, lines, found, level⟩ := headed.starts
  obtain ⟨more, rfl⟩ := sign_of_heading found
  have given : (Text.unixLines text.toList).isEmpty = false := by
    rw [List.isEmpty_eq_false_iff]
    intro empty
    rw [empty] at lines
    cases lines
  have splits : FrontMatter.split (Text.unixLines text.toList) =
      .ok ⟨[], Text.unixLines text.toList, false⟩ := by
    unfold FrontMatter.split
    rw [lines]
    rfl
  have heads : (headings (scan false (linesIn text))).any (·.level == 1) = true := by
    rw [linesIn, lines, scan_of_heading (isFence_of_heading found) found]
    simp [headings, level]
  unfold callsOf
  dsimp only
  rw [headed.trimmed.unixLines.trim_eq, given, if_neg Bool.false_ne_true, splits, Except.mapError_ok,
    Except.ok_bind]
  dsimp only
  have worded : Datum.checkWords (FrontMatter.nameData (Entries.get? ([] : Metadata) "require")) = .ok ⟨⟩ := rfl
  rw [worded, Except.mapError_ok, Except.ok_bind, ← linesIn, if_pos heads, Except.bind_eq_ok_iff]
  simp only [pure, Except.pure, Except.ok.injEq, @eq_comm _ _ calls, partsOf]

/-- The calls of sections, of which those after a unit heading follow any open unit. -/
theorem sectionsCalls_append {metadata : Metadata} {unit : Option String} {first rest : List Section}
    {part : Section} {other : String} {above below : List Call} (level : part.heading.level = 1)
    (opens : unit.isSome = true ∨ first ≠ []) (begins : sectionsCalls metadata unit first = .ok above)
    (follows : sectionsCalls metadata (some other) (part :: rest) = .ok below) :
    sectionsCalls metadata unit (first ++ part :: rest) = .ok (above ++ below) := by
  induction first generalizing unit above with
  | nil =>
    cases begins
    obtain ⟨unit, rfl⟩ := Option.isSome_iff_exists.mp (opens.resolve_right fun given => given rfl)
    rw [List.nil_append, List.nil_append, ← follows]
    simp [sectionsCalls, headingCalls, level]
  | cons head more ih =>
    obtain ⟨opening, inside, method, content, later, heads, text, tail, rfl⟩ :=
      sectionsCalls_cons_eq_ok_iff.mp begins
    refine sectionsCalls_cons_eq_ok_iff.mpr
      ⟨opening, inside, method, content, later ++ below, heads, text, ih (.inl rfl) tail, ?_⟩
    rw [List.append_assoc, List.append_assoc]

/-- Where a unit is open, a unit heading makes the calls that it makes first in a text, but for those of
the front matter. -/
theorem sectionsCalls_of_first {metadata : Metadata} {part : Section} {rest : List Section}
    {calls : List Call} (level : part.heading.level = 1)
    (success : sectionsCalls metadata none (part :: rest) = .ok calls) (other : String) :
    ∃ opening kind key tail, calls = opening ++ (frontMatterCalls metadata kind key ++ tail) ∧
      sectionsCalls metadata (some other) (part :: rest) = .ok (opening ++ tail) := by
  obtain ⟨_, inside, method, content, later, heads, text, follows, rfl⟩ :=
    sectionsCalls_cons_eq_ok_iff.mp success
  obtain ⟨_, rfl, rfl, opens⟩ | ⟨below, _⟩ := headingCalls_cases heads
  · obtain ⟨kind, kinded, whole, _, rfl⟩ := unitCalls_eq_ok_iff.mp opens
    refine ⟨openingCalls kind (unitPath part.heading.title), kind, unitKey part.heading.title,
      content ++ later, by simp, ?_⟩
    have again : unitCalls metadata true part.heading.title =
        .ok (openingCalls kind (unitPath part.heading.title)) :=
      unitCalls_eq_ok_iff.mpr ⟨kind, kinded, whole, by simp, by simp⟩
    refine sectionsCalls_cons_eq_ok_iff.mpr ⟨_, _, _, content, later, ?_, text, follows, rfl⟩
    rw [headingCalls, if_pos level, Option.isSome_some, again]
    rfl
  · exact absurd level below

/-- Empty front matter says nothing of the unit that a text opens first. -/
theorem runs_frontMatterCalls_nil {draft next : Draft} {kind : RubyUnit.Kind} {key : String}
    (run : draft.Runs (frontMatterCalls [] kind key) next) : next = draft := by
  have idle : ∀ call ∈ frontMatterCalls [] kind key, ∃ accessor, call = .addDeclared key accessor [] := by
    intro call made
    have declared : frontMatterCalls [] kind key =
        [.addDeclared key .reader [], .addDeclared key .writer [], .addDeclared key .both []] := by
      cases kind <;> rfl
    rw [declared] at made
    simp only [List.mem_cons, List.not_mem_nil, or_false] at made
    rcases made with rfl | rfl | rfl <;> exact ⟨_, rfl⟩
  generalize frontMatterCalls [] kind key = calls at run idle
  induction calls generalizing draft with
  | nil => exact run
  | cons call rest ih =>
    obtain ⟨middle, reply, success, tail⟩ := run
    obtain ⟨accessor, rfl⟩ := idle call List.mem_cons_self
    obtain ⟨unit, _, rfl⟩ := Draft.change_eq_ok_iff.mp (Draft.result_done success)
    rw [ih tail fun other member => idle other (List.mem_cons_of_mem _ member),
      Entries.adjust_eq_self fun value => by cases accessor <;> rfl]

/-! ## Documents -/

/-- A text with closed fences and a text that starts with a unit heading are read one after the other as
each is read alone, if no qualified name occurs in both. -/
theorem read_append [DataFormat] {above below : String} {filename upperFile lowerFile : Option String}
    {upper lower : Document} (aboveHeaded : Headed above) (belowHeaded : Headed below)
    (closed : (linesIn above).countP isFence % 2 = 0)
    (aboveRead : (read upperFile above).result = .ok upper)
    (belowRead : (read lowerFile below).result = .ok lower)
    (apart : ∀ unit ∈ upper.units, ∀ other ∈ lower.units, unit.qualifiedName ≠ other.qualifiedName) :
    ∃ document, (read filename (above ++ "\n" ++ below)).result = .ok document ∧
      document.units = upper.units ++ lower.units := by
  obtain ⟨_, first, madeAbove, runAbove, holds, rfl⟩ := read_eq_ok_iff.mp aboveRead
  obtain ⟨_, second, madeBelow, runBelow, keeps, rfl⟩ := read_eq_ok_iff.mp belowRead
  obtain ⟨aboveCalls, aboveParts, rfl⟩ := aboveHeaded.callsOf_eq_ok_iff.mp madeAbove
  obtain ⟨belowCalls, belowParts, rfl⟩ := belowHeaded.callsOf_eq_ok_iff.mp madeBelow
  obtain ⟨part, rest, parted, level⟩ := belowHeaded.partsOf_eq
  rw [parted] at belowParts
  -- alone, the lower text also applies its empty front matter
  obtain ⟨opening, kind, key, tail, rfl, follows⟩ := sectionsCalls_of_first level belowParts ""
  obtain ⟨opened, begins, runBelow⟩ := Draft.runs_append.mp (runs_documentCalls.mp runBelow)
  obtain ⟨described, describes, ends⟩ := Draft.runs_append.mp runBelow
  rw [runs_frontMatterCalls_nil describes] at ends
  have runBelow : (Draft.empty lowerFile).Runs (opening ++ tail) second :=
    Draft.runs_append.mpr ⟨opened, begins, ends⟩
  have made : callsOf filename (above ++ "\n" ++ below) =
      .ok ((documentCalls [] ++ aboveCalls) ++ (opening ++ tail)) := by
    refine (aboveHeaded.append belowHeaded).callsOf_eq_ok_iff.mpr
      ⟨aboveCalls ++ (opening ++ tail), ?_, List.append_assoc _ _ _⟩
    obtain ⟨first, more, given, _⟩ := aboveHeaded.partsOf_eq
    rw [aboveHeaded.partsOf_append belowHeaded closed, parted]
    exact sectionsCalls_append level (.inr (by simp [given])) aboveParts follows
  have complete := callsOf_complete made
  have apartKeys : ∀ key ∈ first.units.keys, key ∉ second.units.keys := by
    rw [← holds.sound.names_eq, ← keeps.sound.names_eq]
    intro key upper lower
    obtain ⟨unit, member, rfl⟩ := List.mem_map.mp upper
    obtain ⟨other, inside, same⟩ := List.mem_map.mp lower
    exact apart unit member other inside same.symm
  obtain ⟨next, run, held, units⟩ := runAbove.append_apart runBelow
    (fun call member => (complete call member).1) (fun call member => (complete call member).2) apartKeys
  refine ⟨next.document, read_eq_ok_iff.mpr ⟨_, next, made, run, held, rfl⟩, ?_⟩
  rw [Draft.document, units, List.map_append]
  rfl

/-- A module whose method holds a fenced block with a heading in it, and a class in a module. -/
theorem read_append_of_fenced :
    ∃ document, (read none ("# module A\r\n## run\r\n~~~\r\n# B\r\n~~~" ++ "\n" ++ "# B::C\nX = 1")).result =
        .ok document ∧ document.units.map (·.qualifiedName) = ["A", "B", "B::C"] := by
  obtain ⟨upper, aboveRead, upperNames⟩ : ∃ upper,
      (read none "# module A\r\n## run\r\n~~~\r\n# B\r\n~~~").result = .ok upper ∧
        upper.units.map (·.qualifiedName) = ["A"] := Except.exists_of_toOption (by decide +kernel)
  obtain ⟨lower, belowRead, lowerNames⟩ : ∃ lower, (read none "# B::C\nX = 1").result = .ok lower ∧
      lower.units.map (·.qualifiedName) = ["B", "B::C"] := Except.exists_of_toOption (by decide +kernel)
  have aboveHeaded : Headed "# module A\r\n## run\r\n~~~\r\n# B\r\n~~~" :=
    ⟨⟨by rintro c ⟨⟩; decide, by rintro c ⟨⟩; decide⟩, _, _, _, rfl, rfl, rfl⟩
  have belowHeaded : Headed "# B::C\nX = 1" :=
    ⟨⟨by rintro c ⟨⟩; decide, by rintro c ⟨⟩; decide⟩, _, _, _, rfl, rfl, rfl⟩
  obtain ⟨document, success, units⟩ := @read_append _ _ _ none _ _ _ _ aboveHeaded belowHeaded
    (by decide +kernel) aboveRead belowRead fun unit member other inside same => by
      have named : unit.qualifiedName ∈ ["A"] := upperNames ▸ List.mem_map_of_mem member
      have taken : other.qualifiedName ∈ ["B", "B::C"] := lowerNames ▸ List.mem_map_of_mem inside
      rw [← same, List.mem_singleton.mp named] at taken
      exact absurd taken (by decide)
  refine ⟨document, success, ?_⟩
  rw [units, List.map_append, upperNames, lowerNames]
  rfl

end LiterateRuby.Literate
