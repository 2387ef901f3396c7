import LiterateRuby.Proofs.Literate.Accepted
import LiterateRuby.Proofs.Literate.Carried

/-! # Texts that start with a heading

Of a text whose first section is a unit heading all is known from its sections: whether it can be read
(`exists_read_iff_of_plain`), which units it has, those that its titles name (`exists_unit_of_stretch`) and those
around them (`around_of_read`), and whether they have methods (`methodless_iff`).
-/

namespace LiterateRuby.Literate

open Draft (Call)

/-! ## What is read from sections -/

/-- A unit is another one or holds it. -/
def Around (outer inner : String) : Prop := inner = outer ∨ ∃ rest, inner = outer ++ "::" ++ rest

private theorem around_self (name : String) : Around name name := .inl rfl

theorem Around.trans {outer middle inner : String} (first : Around outer middle) (second : Around middle inner) :
    Around outer inner := by
  rcases first with rfl | ⟨rest, rfl⟩
  · exact second
  · rcases second with rfl | ⟨more, rfl⟩
    · exact .inr ⟨rest, rfl⟩
    · exact .inr ⟨rest ++ "::" ++ more, by simp [String.append_assoc]⟩

/-- Of two units that hold each other both are one. -/
theorem Around.antisymm {first second : String} (outside : Around first second) (inside : Around second first) :
    first = second := by
  rcases outside with rfl | ⟨rest, rfl⟩
  · rfl
  · have length (more : String) : first.length < (first ++ "::" ++ rest ++ more).length := by
      simp only [String.length_append]
      have signs : "::".length = 2 := rfl
      omega
    rcases inside with same | ⟨more, same⟩
    · exact same
    · have longer := length ("::" ++ more)
      rw [← String.append_assoc, ← same] at longer
      exact absurd longer (lt_irrefl _)

/-- A part of a path names a unit around it. -/
theorem around_of_prefix {outer path : List String} (given : outer ≠ []) (starts : outer <+: path) :
    Around (Text.joinScope outer) (Text.joinScope path) := by
  obtain ⟨inner, rfl⟩ := starts
  by_cases more : inner = []
  · rw [more, List.append_nil]
    exact around_self _
  · exact .inr ⟨Text.joinScope inner, String.intercalate_append_of_ne_nil given more⟩

/-- The calls of a unit heading open the unit and those around it. -/
theorem around_of_unitCalls {metadata : Metadata} {opened : Bool} {title : List Char} {calls : List Call}
    (success : unitCalls metadata opened title = .ok calls) {call : Call} (made : call ∈ calls) {name : String}
    (opens : call.opened? = some name) : Around name (unitKey title) := by
  obtain ⟨_, kind, each⟩ := unitCalls_cases success
  rcases each call made with opening | ⟨_, front⟩
  · cases opening with
    | @holder outer inner part within =>
      cases opens
      refine around_of_prefix (by simp) (List.IsPrefix.trans ⟨inner, ?_⟩ (List.dropLast_prefix _))
      rw [← within, List.append_assoc, List.singleton_append]
    | unit =>
      cases opens
      rw [keyOf_unitPath]
      exact around_self _
    | visibility | leave => cases opens
  · rw [front.changes.opens] at opens
    cases opens

/-- Sections open the units that their titles name and those around them. -/
theorem around_of_sectionsCalls {metadata : Metadata} {unit : Option String} {parts : List Section}
    {calls : List Call} (success : sectionsCalls metadata unit parts = .ok calls) {call : Call}
    (made : call ∈ calls) {name : String} (opens : call.opened? = some name) :
    ∃ stretch ∈ (stretches parts).2, Around name stretch.unit := by
  induction parts generalizing unit calls with
  | nil =>
    cases success
    cases made
  | cons part rest ih =>
    obtain ⟨opening, inside, method, content, later, heads, holds, follows, rfl⟩ :=
      sectionsCalls_cons_eq_ok_iff.mp success
    have further : ∀ stretch ∈ (stretches rest).2, stretch ∈ (stretches (part :: rest)).2 := by
      intro stretch listed
      rw [stretches]
      split
      · exact List.mem_cons_of_mem _ listed
      · exact listed
    simp only [List.mem_append] at made
    rcases made with here | text | after
    · rcases headingCalls_cases heads with ⟨first, rfl, rfl, titled⟩ | ⟨-, -, moves⟩
      · rw [stretches, if_pos first]
        exact ⟨_, List.mem_cons_self, around_of_unitCalls titled here opens⟩
      · cases moves call here <;> cases opens
    · rw [(textCalls_content holds call text).changes.opens] at opens
      cases opens
    · obtain ⟨stretch, listed, around⟩ := ih follows after
      exact ⟨stretch, further stretch listed, around⟩

/-- A section without a unit heading of its own stands in a stretch or before all. -/
theorem mem_stretches {parts : List Section} {part : Section} (member : part ∈ parts)
    (inner : part.heading.level ≠ 1) :
    part ∈ (stretches parts).1 ∨ ∃ stretch ∈ (stretches parts).2, part ∈ stretch.parts := by
  induction parts with
  | nil => cases member
  | cons head rest ih =>
    rw [stretches]
    split
    · next first =>
      rcases List.mem_cons.mp member with rfl | later
      · exact absurd first inner
      · rcases ih later with leading | ⟨stretch, listed, within⟩
        · exact .inr ⟨_, List.mem_cons_self, leading⟩
        · exact .inr ⟨stretch, List.mem_cons_of_mem _ listed, within⟩
    · rcases List.mem_cons.mp member with rfl | later
      · exact .inl List.mem_cons_self
      · exact (ih later).imp_left (List.mem_cons_of_mem _)

/-- What stands in stretches are sections. -/
theorem mem_of_mem_stretches {parts : List Section} {part : Section}
    (within : part ∈ (stretches parts).1 ∨ ∃ stretch ∈ (stretches parts).2, part ∈ stretch.parts) :
    part ∈ parts := by
  induction parts with
  | nil => rcases within with nothing | ⟨stretch, nothing, -⟩ <;> cases nothing
  | cons head rest ih =>
    rw [stretches] at within
    split at within
    · rcases within with nothing | ⟨stretch, listed, inside⟩
      · cases nothing
      · rcases List.mem_cons.mp listed with rfl | later
        · exact List.mem_cons_of_mem _ (ih (.inl inside))
        · exact List.mem_cons_of_mem _ (ih (.inr ⟨stretch, later, inside⟩))
    · rcases within with leading | later
      · rcases List.mem_cons.mp leading with rfl | more
        · exact List.mem_cons_self
        · exact List.mem_cons_of_mem _ (ih (.inl more))
      · exact List.mem_cons_of_mem _ (ih (.inr later))

/-- Sections have no methods exactly if none of their headings is that of one. -/
theorem methodsOf_eq_nil_iff {before : List Heading} {parts : List Section} :
    methodsOf before parts = [] ↔ ∀ part ∈ parts, part.heading.isMethod = false := by
  induction parts generalizing before with
  | nil => simp [methodsOf]
  | cons part rest ih => cases titled : part.heading.isMethod <;> simp [methodsOf, titled, ih]

/-! ## Texts that start with a heading -/

section Headed

variable [DataFormat] {text : String} {front : FrontMatter} {part : Section}
  (splits : FrontMatter.split (Text.trim (Text.unixLines text.toList)) = .ok front)
  (headed : (sectionsOf text).head? = some part) (first : part.heading.level = 1)
include splits headed first

/-- Such a text without front matter is read exactly if its sections are legible. -/
theorem exists_read_iff_of_plain (plain : front.metadata = []) :
    (∃ document, (read none text).result = .ok document) ↔ Legible (sectionsOf text) := by
  have describes : Describes front.metadata ⟨.cls none, "", [], [], [], [], [], [], [], [], [], [], [], []⟩ := by
    rw [plain]
    exact ⟨by simp [Expressible], rfl, rfl, rfl, rfl, rfl, rfl, fun _ _ => rfl⟩
  exact exists_read_iff_legible splits headed first describes (by simp [Entries.keys])

/-- The units of such a text are those that its titles name and those around them. -/
theorem around_of_read {filename : Option String} {document : Document}
    (success : (read filename text).result = .ok document) {unit : RubyUnit} (member : unit ∈ document.units) :
    ∃ stretch ∈ (stretches (sectionsOf text)).2, Around unit.qualifiedName stretch.unit := by
  obtain ⟨calls, draft, made, run, holds, rfl⟩ := read_eq_ok_iff.mp success
  obtain ⟨other, parts, rest, same, cut, -, follows, rfl⟩ := callsOf_cases made
  cases splits.symm.trans same
  cases (textSections?_of_headed splits headed first filename).symm.trans cut
  have listed : unit.qualifiedName ∈ draft.units.keys :=
    holds.sound.names_eq ▸ List.mem_map_of_mem member
  rw [holds.opened, Text.mem_distinct, List.mem_filterMap] at listed
  obtain ⟨call, among, opens⟩ := listed
  rcases List.mem_append.mp among with document | later
  · rw [documentCalls_unopened _ call document] at opens
    cases opens
  · exact around_of_sectionsCalls follows later opens

theorem stretchesOf_of_headed (filename : Option String) :
    stretchesOf filename text = (stretches (sectionsOf text)).2 :=
  stretchesOf_eq splits (textSections?_of_headed splits headed first filename)

/-- The titles of such a text name units of it. -/
theorem exists_unit_of_stretch {filename : Option String} {document : Document}
    (success : (read filename text).result = .ok document) {stretch : Stretch}
    (listed : stretch ∈ (stretches (sectionsOf text)).2) :
    ∃ unit ∈ document.units, unit.qualifiedName = stretch.unit := by
  rw [← stretchesOf_of_headed splits headed first filename] at listed
  exact List.mem_map.mp (mem_names_of_stretch success listed)

/-- The units of such a text have no methods exactly if no heading is that of one. -/
theorem methodless_iff {filename : Option String} {document : Document}
    (success : (read filename text).result = .ok document) :
    (∀ unit ∈ document.units, unit.methods = []) ↔ ∀ part ∈ sectionsOf text, part.heading.isMethod = false := by
  have methods : ∀ unit ∈ document.units, unit.methods.map Except.ok = _ := fun unit => methods_of_read success
  rw [stretchesOf_of_headed splits headed first filename] at methods
  constructor
  · intro methodless inner member
    by_contra titled
    rw [Bool.not_eq_false] at titled
    have level : inner.heading.level ≠ 1 := fun level => by simp [Heading.isMethod, level] at titled
    obtain ⟨rest, parts⟩ := List.head?_eq_some_iff.mp headed
    rcases mem_stretches member level with leading | ⟨stretch, listed, within⟩
    · rw [parts, stretches, if_pos first] at leading
      cases leading
    · obtain ⟨unit, among, named⟩ := exists_unit_of_stretch splits headed first success listed
      have empty := methods unit among
      rw [methodless unit among, List.map_nil, eq_comm, List.flatMap_eq_nil_iff] at empty
      have silent := methodsOf_eq_nil_iff.mp (empty stretch (List.mem_filter.mpr ⟨listed, by simp [named]⟩))
      exact absurd titled (by simp [silent inner within])
  · intro silent unit member
    have made := methods unit member
    have nothing : ∀ stretch ∈ (stretches (sectionsOf text)).2, stretch.methods = [] := fun stretch listed =>
      methodsOf_eq_nil_iff.mpr fun inner within =>
        silent inner (mem_of_mem_stretches (.inr ⟨stretch, listed, within⟩))
    rw [List.flatMap_eq_nil_iff.mpr fun stretch listed => nothing stretch (List.mem_filter.mp listed).1] at made
    exact List.map_eq_nil_iff.mp made

end Headed

end LiterateRuby.Literate
