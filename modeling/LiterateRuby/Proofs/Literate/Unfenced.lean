import LiterateRuby.Proofs.Literate.Headed
import LiterateRuby.Proofs.Text.Inner

/-! # Texts without fences

Where no line is a fence, the sections of a text have the headings of its lines, each read by itself
(`headings_scan_of_unfenced`), and what stands under them are the other lines. Blanks at the end of a line do not
change the heading that it is (`heading?_trimEnd`), so the headings of a written text are those of the lines that were
written, although its last line is trimmed (`exists_lines_read`).
-/

namespace LiterateRuby.Literate

open Text (isBlank allBlank trim trimEnd Unbroken)
open Render (textOf)

/-! ## All lines -/

theorem map_heading_sections (lines : List Line) : (sections lines).2.map (·.heading) = headings lines := by
  induction lines with
  | nil => rfl
  | cons line rest ih =>
    cases line with
    | content text => exact ih
    | heading heading => exact congrArg (heading :: ·) ih

/-- What stands under a heading are lines that are read as content. -/
theorem content_of_section {lines : List Line} {part : Section} (member : part ∈ (sections lines).2)
    {text : List Char} (inside : text ∈ part.text) : .content text ∈ lines := by
  have leading : ∀ {lines : List Line}, text ∈ (sections lines).1 → .content text ∈ lines := by
    intro lines within
    induction lines with
    | nil => cases within
    | cons line rest ih =>
      cases line with
      | content other =>
        rcases List.mem_cons.mp within with rfl | later
        · exact List.mem_cons_self
        · exact List.mem_cons_of_mem _ (ih later)
      | heading heading => cases within
  induction lines with
  | nil => cases member
  | cons line rest ih =>
    cases line with
    | content other => exact List.mem_cons_of_mem _ (ih member)
    | heading heading =>
      rcases List.mem_cons.mp member with rfl | later
      · exact List.mem_cons_of_mem _ (leading inside)
      · exact List.mem_cons_of_mem _ (ih later)

section Unfenced

variable {lines : List (List Char)} (unfenced : ∀ line ∈ lines, isFence line = false)
include unfenced

/-- Without fences each line is read by itself. -/
theorem headings_scan_of_unfenced : headings (scan false lines) = lines.filterMap heading? := by
  induction lines with
  | nil => rfl
  | cons line rest ih =>
    have plain := unfenced line List.mem_cons_self
    have later := ih fun other member => unfenced other (List.mem_cons_of_mem _ member)
    rw [scan_cons, if_neg (by simp [plain]), List.filterMap_cons]
    cases found : heading? line with
    | none => exact later
    | some heading => exact congrArg (heading :: ·) later

theorem unheaded_of_content {text : List Char} (member : .content text ∈ scan false lines) :
    text ∈ lines ∧ heading? text = none := by
  induction lines with
  | nil => cases member
  | cons line rest ih =>
    have plain := unfenced line List.mem_cons_self
    have later := ih fun other member => unfenced other (List.mem_cons_of_mem _ member)
    rw [scan_cons, if_neg (by simp [plain])] at member
    cases found : heading? line with
    | none =>
      rw [found] at member
      rcases List.mem_cons.mp member with same | after
      · cases same
        exact ⟨List.mem_cons_self, found⟩
      · exact ⟨List.mem_cons_of_mem _ (later after).1, (later after).2⟩
    | some heading =>
      rw [found] at member
      rcases List.mem_cons.mp member with same | after
      · cases same
      · exact ⟨List.mem_cons_of_mem _ (later after).1, (later after).2⟩

end Unfenced

/-! ## Written lines -/

/-- The lines of a text that starts with a heading are read as they are written, but for blanks at the end. -/
theorem exists_lines_read [DataFormat] {lines : List String} {before : List (List Char)} {last : List Char}
    (shape : lines.map String.toList = before ++ [last]) {c : Char} {rest : List Char}
    (starts : Text.unlines (before ++ [last]) = '#' :: ' ' :: c :: rest) (shown : isBlank c = false)
    (unbroken : ∀ line ∈ before ++ [last], Unbroken line) (stops : allBlank last = false) :
    ∃ blank, (blank = [] ∨ blank = [[]]) ∧
      sectionsOf (textOf lines) = (sections (scan false (blank ++ (before ++ [trimEnd last])))).2 := by
  have filled : lines ≠ [] := by
    rintro rfl
    simp at shape
  have whole : textOf lines = "\n".intercalate lines ++ "\n" := by rw [textOf, if_neg (by simpa using filled)]
  obtain ⟨front, blank, first, more, blanks, -, cut, after, splits⟩ :=
    @split_headed _ [] List.nodup_nil (by simp) lines c rest (shape ▸ starts) shown _ whole
  obtain ⟨_, _, same, again⟩ := lines_trim_of_heading shown (rest ++ ['\n'])
  obtain ⟨rfl, rfl⟩ := List.cons.inj (again.symm.trans after)
  have trimmed : trim (Text.unixLines ('#' :: ' ' :: c :: (rest ++ ['\n']))) =
      Text.unlines (before ++ [trimEnd last]) := by
    have chars : '#' :: ' ' :: c :: (rest ++ ['\n']) = Text.unlines (before ++ [last]) ++ ['\n'] := by
      rw [starts]
      rfl
    have plain : '\r' ∉ Text.unlines (before ++ [last]) ++ ['\n'] := by
      rw [List.mem_append, not_or]
      exact ⟨Text.unix_unlines unbroken, by decide⟩
    have ends : trimEnd (Text.unlines (before ++ [last])) = Text.unlines (before ++ [trimEnd last]) := by
      by_cases empty : before = []
      · rw [empty]
        rfl
      · rw [Text.unlines_append empty (by simp), Text.unlines_append empty (by simp), ← List.singleton_append,
          ← List.append_assoc, Text.trimEnd_append (by exact stops), List.append_assoc]
        rfl
    rw [chars, Text.unixLines_eq_self plain, trim, Text.trimStart_eq_self, Text.trimEnd_append_of_blank (by decide),
      ends]
    intro d head
    rw [starts] at head
    cases head
    decide
  have flat : ∀ line ∈ before ++ [trimEnd last], Text.Flat line := by
    intro line member
    rcases List.mem_append.mp member with early | final
    · exact (unbroken line (List.mem_append_left _ early)).flat
    · rw [List.mem_singleton.mp final]
      exact fun feed => (unbroken last (by simp)).flat ((Text.trimEnd_starts last).subset feed)
  rw [trimmed, Text.lines_unlines (by simp) flat] at same
  refine ⟨blank, blanks, ?_⟩
  rw [sectionsOf_eq splits, cut, ← same]

end LiterateRuby.Literate
