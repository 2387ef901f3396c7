import LiterateRuby.Proofs.Constant
import LiterateRuby.Proofs.Literate.Section
import LiterateRuby.Proofs.Number.Layout
import LiterateRuby.Proofs.Ruby.Span

/-! # Code without fences

A line is a fence by what it starts with. So where texts are joined by something that shows and is no sign of a
fence, each of them answers for its own lines: the first one for all of them (`Fenceless`), a later one for all but
the line in which it starts (`Continues`). Neither indentation nor blank lines between sections make a difference.
-/

namespace LiterateRuby

/-- The text in a value that its literal has line by line. -/
def Constant.freeText : Constant → String
  | .str value | .symbol value | .raw value => value
  | _ => ""

namespace Literate

open Text (isBlank allBlank trimStart lines unlines Flat)

/-! ## What a line starts with -/

private theorem isFence_iff {line : List Char} :
    isFence line = true ↔ backtickFence <+: trimStart line ∨ tildeFence <+: trimStart line := by
  have found (start cs : List Char) : (Text.after? start cs).isSome = true ↔ start <+: cs := by
    rw [Option.isSome_iff_exists]
    exact exists_congr fun rest => Text.after?_eq_some_iff.trans eq_comm
  rw [isFence, Bool.or_eq_true, found, found]

/-- A text within a line that keeps a fence from reaching across it: it shows, and has no sign of a fence. -/
def isParting (cs : List Char) : Bool :=
  !allBlank cs && cs.all fun c => c != '\n' && c != Char.ofNat 0x60 && c != '~'

private theorem isParting_iff {cs : List Char} :
    isParting cs = true ↔ allBlank cs = false ∧ Flat cs ∧ ∀ c ∈ cs, c ∉ backtickFence ∧ c ∉ tildeFence := by
  simp only [isParting, Bool.and_eq_true, Bool.not_eq_true', List.all_eq_true, bne_iff_ne, Flat, backtickFence,
    tildeFence, List.mem_replicate]
  grind

private theorem prefix_append_cons_iff {start before : List Char} {c : Char} (other : c ∉ start)
    (rest : List Char) :
    start <+: before ++ c :: rest ↔ start <+: before := by
  refine ⟨fun begins => ?_, fun begins => begins.trans (List.prefix_append _ _)⟩
  have next : before ++ [c] <+: before ++ c :: rest := ⟨rest, by simp⟩
  rcases List.prefix_or_prefix_of_prefix begins next with short | long
  · rcases List.prefix_concat_iff.mp short with same | within
    · exact absurd (same ▸ List.mem_concat_self) other
    · exact within
  · exact absurd (long.subset (by simp)) other

/-- Whether a line is a fence is settled before the first text that keeps fences apart. -/
theorem isFence_append_parting {parting : List Char} (parts : isParting parting = true) (before rest : List Char) :
    isFence (before ++ (parting ++ rest)) = isFence before := by
  obtain ⟨shows, -, others⟩ := isParting_iff.mp parts
  rw [Bool.eq_iff_iff, isFence_iff, isFence_iff]
  cases blank : allBlank before with
  | true =>
    have kept : trimStart (before ++ (parting ++ rest)) = trimStart parting ++ rest := by
      rw [Text.trimStart_append_of_blank blank, Text.trimStart_append shows]
    obtain ⟨c, more, start⟩ := List.exists_cons_of_ne_nil (l := trimStart parting) (by
      simpa [trimStart, allBlank] using shows)
    obtain ⟨tick, tilde⟩ := others c ((List.dropWhile_suffix _).subset (start ▸ List.mem_cons_self))
    rw [kept, start, Text.trimStart_of_allBlank blank]
    exact or_congr (@prefix_append_cons_iff _ [] c tick (more ++ rest))
      (@prefix_append_cons_iff _ [] c tilde (more ++ rest))
  | false =>
    obtain ⟨c, more, rfl⟩ := List.exists_cons_of_ne_nil (l := parting) (by rintro rfl; exact absurd shows (by decide))
    obtain ⟨tick, tilde⟩ := others c List.mem_cons_self
    rw [Text.trimStart_append blank]
    exact or_congr (prefix_append_cons_iff tick (more ++ rest)) (prefix_append_cons_iff tilde (more ++ rest))

private theorem isFence_indented {indent : List Char} (blank : allBlank indent = true) (line : List Char) :
    isFence (indent ++ line) = isFence line := by
  rw [isFence, Text.trimStart_append_of_blank blank, isFence]

/-! ## Texts that are joined -/

/-- No line of a text is a fence. -/
def Fenceless (cs : List Char) : Prop := ∀ line ∈ lines cs, isFence line = false

/-- No line of a text is a fence, if something else starts the first one. -/
def Continues (cs : List Char) : Prop := ∀ line ∈ (lines cs).tail, isFence line = false

instance (cs : List Char) : Decidable (Fenceless cs) :=
  inferInstanceAs (Decidable (∀ line ∈ lines cs, isFence line = false))

instance (cs : List Char) : Decidable (Continues cs) :=
  inferInstanceAs (Decidable (∀ line ∈ (lines cs).tail, isFence line = false))

theorem fenceless_of_flat {cs : List Char} (flat : Flat cs) : Fenceless cs ↔ isFence cs = false := by
  have alone : lines cs = [cs] := Text.splitOn_of_absent flat
  rw [Fenceless, alone, List.forall_mem_singleton]

@[simp] theorem continues_of_flat {cs : List Char} (flat : Flat cs) : Continues cs := by
  have alone : lines cs = [cs] := Text.splitOn_of_absent flat
  rw [Continues, alone]
  exact fun _ member => absurd member List.not_mem_nil

theorem fenceless_nil : Fenceless [] := by decide

@[simp] theorem continues_nil : Continues [] := by decide

section Parting

variable {parting : List Char} (parts : isParting parting = true)
include parts

/-- A text and what follows it behind a text that keeps fences apart. -/
theorem fenceless_parted (before rest : List Char) :
    Fenceless (before ++ (parting ++ rest)) ↔ Fenceless before ∧ Continues rest := by
  obtain ⟨-, flat, -⟩ := isParting_iff.mp parts
  obtain ⟨first, after, begins, follows⟩ := Text.lines_append_of_flat flat rest
  obtain ⟨above, last, start, below, ends, starts, joined⟩ := Text.exists_lines_append before (parting ++ rest)
  obtain ⟨rfl, rfl⟩ := List.cons.inj (follows.symm.trans starts)
  rw [Fenceless, Fenceless, Continues, joined, ends, begins, List.forall_mem_append, List.forall_mem_append,
    List.forall_mem_cons, List.forall_mem_singleton, isFence_append_parting parts, List.tail_cons, and_assoc]

theorem continues_parted (before rest : List Char) :
    Continues (before ++ (parting ++ rest)) ↔ Continues before ∧ Continues rest := by
  obtain ⟨-, flat, -⟩ := isParting_iff.mp parts
  obtain ⟨first, after, begins, follows⟩ := Text.lines_append_of_flat flat rest
  obtain ⟨above, last, start, below, ends, starts, joined⟩ := Text.exists_lines_append before (parting ++ rest)
  obtain ⟨rfl, rfl⟩ := List.cons.inj (follows.symm.trans starts)
  rw [Continues, Continues, Continues, joined, ends, begins]
  cases above with
  | nil => simp
  | cons line more => simp [isFence_append_parting parts, or_imp, forall_and, and_assoc]

theorem fenceless_behind (rest : List Char) : Fenceless (parting ++ rest) ↔ Continues rest := by
  have joined := fenceless_parted parts [] rest
  rwa [List.nil_append, and_iff_right fenceless_nil] at joined

theorem continues_behind (rest : List Char) : Continues (parting ++ rest) ↔ Continues rest := by
  have joined := continues_parted parts [] rest
  rwa [List.nil_append, and_iff_right continues_nil] at joined

theorem continues_before (before : List Char) : Continues (before ++ parting) ↔ Continues before := by
  have joined := continues_parted parts before []
  rwa [List.append_nil, and_iff_left continues_nil] at joined

theorem continues_intercalate (pieces : List (List Char)) :
    Continues (parting.intercalate pieces) ↔ ∀ piece ∈ pieces, Continues piece := by
  induction pieces with
  | nil => simp [List.intercalate]
  | cons piece rest ih =>
    cases rest with
    | nil => simp
    | cons next following =>
      rw [List.intercalate_cons_cons, List.append_assoc, continues_parted parts, ih]
      exact List.forall_mem_cons.symm

end Parting

private theorem fenceless_indented {indent : List Char} (blank : allBlank indent = true) (flat : Flat indent)
    (cs : List Char) : Fenceless (indent ++ cs) ↔ Fenceless cs := by
  obtain ⟨first, after, begins, behind⟩ := Text.lines_append_of_flat flat cs
  rw [Fenceless, Fenceless, begins, behind, List.forall_mem_cons, List.forall_mem_cons, isFence_indented blank]

/-! ## Lines of code -/

/-- No line of code is a fence, nor has one inside. -/
def FencelessLines (code : List String) : Prop := ∀ text ∈ code, Fenceless text.toList

instance (code : List String) : Decidable (FencelessLines code) :=
  inferInstanceAs (Decidable (∀ text ∈ code, Fenceless text.toList))

theorem fencelessLines_append {first second : List String} :
    FencelessLines (first ++ second) ↔ FencelessLines first ∧ FencelessLines second := List.forall_mem_append

theorem fencelessLines_cons {text : String} {rest : List String} :
    FencelessLines (text :: rest) ↔ Fenceless text.toList ∧ FencelessLines rest := List.forall_mem_cons

theorem fencelessLines_map {α : Type} {items : List α} {write : α → String} :
    FencelessLines (items.map write) ↔ ∀ item ∈ items, Fenceless (write item).toList := List.forall_mem_map

theorem fencelessLines_linesOf (text : String) : FencelessLines (Text.linesOf text) ↔ Fenceless text.toList := by
  have each (line : List Char) (member : line ∈ lines text.toList) :
      Fenceless (String.ofList line).toList ↔ isFence line = false := by
    rw [String.toList_ofList]
    exact fenceless_of_flat (Text.flat_of_mem_lines member)
  rw [Text.linesOf, fencelessLines_map]
  exact forall₂_congr each

theorem fencelessLines_joinSections (sections : List (List String)) :
    FencelessLines (Render.joinSections sections) ↔ ∀ code ∈ sections, FencelessLines code := by
  have kept : FencelessLines (Render.joinSections sections) ↔
      ∀ code ∈ sections.filter (!·.isEmpty), FencelessLines code := by
    unfold Render.joinSections
    induction sections.filter (!·.isEmpty) with
    | nil => simp [FencelessLines]
    | cons code rest ih =>
      cases rest with
      | nil => simp
      | cons next following =>
        have blank : FencelessLines [""] := by simp [FencelessLines, fenceless_nil]
        rw [List.intersperse_cons_cons, List.flatten_cons, List.flatten_cons, fencelessLines_append,
          fencelessLines_append, and_iff_right blank, ih]
        exact List.forall_mem_cons.symm
  rw [kept]
  refine ⟨fun each code member => ?_, fun each code member => each code (List.mem_of_mem_filter member)⟩
  by_cases empty : code = []
  · simp [FencelessLines, empty]
  · exact each code (List.mem_filter.mpr ⟨member, by simpa using empty⟩)

theorem fencelessLines_indentLines {indent : String} (blank : allBlank indent.toList = true)
    (flat : Flat indent.toList) (code : List String) :
    FencelessLines (Render.indentLines indent code) ↔ FencelessLines code := by
  rw [Render.indentLines, fencelessLines_map]
  refine forall₂_congr fun text _ => ?_
  split_ifs with empty
  · rw [empty]
  · rw [String.toList_append, fenceless_indented blank flat]

/-! ## Values -/

/-- Escaping puts a backslash before what keeps fences apart anyway. -/
theorem continues_escape (before cs : List Char) :
    Continues (before ++ Constant.escape cs) ↔ Continues (before ++ cs) := by
  have parted (above : List Char) {sign : List Char} (escaped : isParting ('\\' :: sign) = true) (plain : isParting sign = true)
      {rest : List Char} (ih : ∀ before, Continues (before ++ Constant.escape rest) ↔ Continues (before ++ rest)) :
      Continues (above ++ ('\\' :: sign ++ Constant.escape rest)) ↔ Continues (above ++ (sign ++ rest)) := by
    rw [continues_parted escaped, continues_parted plain]
    exact and_congr_right' (ih [])
  fun_induction Constant.escape cs generalizing before with
  | case1 => rfl
  | case2 rest ih => exact @parted before ['#', '\x7b'] (by decide) (by decide) rest ih
  | case3 c rest unmarked special ih =>
    rcases special with rfl | rfl
    · exact @parted before ['\\'] (by decide) (by decide) rest ih
    · exact @parted before ['"'] (by decide) (by decide) rest ih
  | case4 c rest unmarked ordinary ih =>
    have moved := ih (before ++ [c])
    rwa [List.append_assoc, List.append_assoc] at moved

/-- A literal goes on in lines of its own as the text in the value does. -/
theorem continues_literal {value : Constant} {source : String} (written : value.literal = .ok source) :
    Continues source.toList ↔ Continues value.freeText.toList := by
  have flat {text : String} (flat : Flat text.toList) :
      Continues text.toList ↔ Continues "".toList := iff_of_true (continues_of_flat flat) continues_nil
  cases value with
  | nil => cases written; exact flat (by decide)
  | bool value => cases written; exact flat (by cases value <;> decide)
  | int value =>
    obtain ⟨-, rfl⟩ := Constant.literal_int_eq_ok_iff.mp written
    exact flat (Number.flat_intText value)
  | float value => cases written; exact flat value.flat_text
  | str value =>
    cases written
    rw [Constant.stringLiteral, String.toList_ofList, ← List.singleton_append, List.append_assoc,
      continues_behind (by decide), continues_before (by decide)]
    exact continues_escape [] value.toList
  | symbol name =>
    cases written
    rw [String.toList_append]
    exact continues_behind (by decide) name.toList
  | raw text => cases written; rfl
  | data value => cases written

end Literate

end LiterateRuby
