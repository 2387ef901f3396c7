import LiterateRuby.Ruby.Indent
import LiterateRuby.Proofs.Text.Inner

/-! # Indentation that is taken away

A body loses blanks only: what its lines show stays, and no line ends with a blank. The indentation of the first
line is not known where the text starts with it; the others lose the least one among them, their margin.
-/

namespace LiterateRuby.Ruby

open Text (isBlank allBlank trim trimEnd lines unlines Flat inner)

/-! ## One line -/

theorem indentation_le (line : List Char) : indentation line ≤ line.length :=
  (List.takeWhile_prefix isBlank).length_le

theorem indentation_append {indent : List Char} (blank : allBlank indent = true) (line : List Char) :
    indentation (indent ++ line) = indent.length + indentation line := by
  rw [indentation, List.takeWhile_append_of_pos (by simpa [allBlank] using blank), List.length_append,
    indentation]

theorem allBlank_take {width : Nat} {line : List Char} (within : width ≤ indentation line) :
    allBlank (line.take width) = true := by
  have start : line.take width <+: line.takeWhile isBlank :=
    List.prefix_of_prefix_length_le (List.take_prefix width line) (List.takeWhile_prefix isBlank)
      ((List.length_take_le width line).trans within)
  exact List.all_eq_true.mpr fun c member => List.mem_takeWhile_imp (start.subset member)

/-- The blanks that a line has before the part that is left of it. -/
theorem indentation_drop {width : Nat} {line : List Char} (within : width ≤ indentation line) :
    indentation line = width + indentation (line.drop width) := by
  have whole := indentation_append (allBlank_take within) (line.drop width)
  rwa [List.take_append_drop, List.length_take_of_le (within.trans (indentation_le line))] at whole

/-- The first character that a line shows stands behind its indentation. -/
theorem exists_shown {line : List Char} (shown : allBlank line = false) :
    ∃ indent c rest, line = indent ++ c :: rest ∧ allBlank indent = true ∧ isBlank c = false := by
  have left : allBlank (line.dropWhile isBlank) = false := (Text.allBlank_trimStart line).trans shown
  cases rest : line.dropWhile isBlank with
  | nil =>
    rw [rest] at left
    cases left
  | cons c more =>
    have head := List.head?_dropWhile_not isBlank line
    rw [rest] at head
    refine ⟨line.takeWhile isBlank, c, more, ?_, ?_, head⟩
    · rw [← rest, List.takeWhile_append_dropWhile]
    · exact List.all_eq_true.mpr fun d member => List.mem_takeWhile_imp member

private theorem indentation_cons_of_shown {c : Char} (shown : isBlank c = false) (rest : List Char) :
    indentation (c :: rest) = 0 := by
  rw [indentation, List.takeWhile_cons_of_neg (by simp [shown])]
  rfl

/-- Blanks at the end of a line that shows are not its indentation. -/
theorem indentation_trimEnd {line : List Char} (shown : allBlank line = false) :
    indentation (trimEnd line) = indentation line := by
  obtain ⟨indent, c, rest, rfl, blank, shows⟩ := exists_shown shown
  have left : allBlank (c :: rest) = false := by simp [allBlank, shows]
  rw [Text.trimEnd_append left, Text.trimEnd_cons_of_shown shows, indentation_append blank,
    indentation_append blank, indentation_cons_of_shown shows, indentation_cons_of_shown shows]

theorem unindent_of_blank {line : List Char} (blank : allBlank line = true) (width : Nat) :
    unindent width line = [] := if_pos blank

theorem unindent_of_shown {line : List Char} (shown : allBlank line = false) (width : Nat) :
    unindent width line = line.drop width := if_neg (by simp [shown])

private theorem unindent_suffix (width : Nat) (line : List Char) : unindent width line <:+ line := by
  unfold unindent
  split
  · exact List.nil_suffix
  · exact List.drop_suffix width line

/-- Taking indentation away changes nothing of what a line shows. -/
theorem trim_unindent {width : Nat} {line : List Char}
    (within : allBlank line = false → width ≤ indentation line) : trim (unindent width line) = trim line := by
  cases shown : allBlank line with
  | true => rw [unindent_of_blank shown, Text.trim_of_allBlank shown]; rfl
  | false =>
    have dropped := Text.trim_append_left (allBlank_take (within shown)) (line.drop width)
    rw [List.take_append_drop] at dropped
    rw [unindent_of_shown shown, dropped]

/-! ## The margin -/

/-- The indentation that the lines after a first one without indentation have in common. -/
def margin (later : List (List Char)) : Nat := (leastIndentation? later).getD 0

theorem leastIndentation?_eq_none {ls : List (List Char)} :
    leastIndentation? ls = none ↔ ∀ l ∈ ls, allBlank l = true := by
  simp [leastIndentation?]

private theorem leastIndentation?_eq_some {ls : List (List Char)} {width : Nat} :
    leastIndentation? ls = some width ↔
      (∃ l ∈ ls, allBlank l = false ∧ indentation l = width) ∧
        ∀ l ∈ ls, allBlank l = false → width ≤ indentation l := by
  rw [leastIndentation?, List.min?_eq_some_iff]
  simp only [List.mem_map, List.mem_filter, Bool.not_eq_eq_eq_not, Bool.not_true, forall_exists_index,
    and_imp, and_assoc]
  refine and_congr_right fun _ => ⟨fun least l member shown => least _ l member shown rfl, ?_⟩
  rintro least _ l member shown rfl
  exact least l member shown

theorem margin_le {ls : List (List Char)} {l : List Char} (member : l ∈ ls) (shown : allBlank l = false) :
    margin ls ≤ indentation l := by
  cases least : leastIndentation? ls with
  | none =>
    rw [leastIndentation?_eq_none.mp least l member] at shown
    cases shown
  | some width =>
    rw [margin, least]
    exact (leastIndentation?_eq_some.mp least).2 l member shown

/-- The margin is the indentation of some line. -/
theorem exists_margin {ls : List (List Char)} (shows : ∃ l ∈ ls, allBlank l = false) :
    ∃ l ∈ ls, allBlank l = false ∧ indentation l = margin ls := by
  cases least : leastIndentation? ls with
  | none =>
    obtain ⟨l, member, shown⟩ := shows
    rw [leastIndentation?_eq_none.mp least l member] at shown
    cases shown
  | some width =>
    rw [margin, least]
    exact (leastIndentation?_eq_some.mp least).1

theorem margin_eq {ls : List (List Char)} {width : Nat}
    (reached : ∃ l ∈ ls, allBlank l = false ∧ indentation l = width)
    (least : ∀ l ∈ ls, allBlank l = false → width ≤ indentation l) : margin ls = width := by
  rw [margin, leastIndentation?_eq_some.mpr ⟨reached, least⟩]
  rfl

/-! ## All lines -/

/-- Each line loses no more than its indentation. -/
theorem exists_dedentLines (first : List Char) (later : List (List Char)) :
    ∃ here there, dedentLines (first :: later) = unindent here first :: later.map (unindent there) ∧
      (allBlank first = false → here ≤ indentation first) ∧
        ∀ l ∈ later, allBlank l = false → there ≤ indentation l := by
  cases least : leastIndentation? later with
  | none =>
    refine ⟨indentation first, 0, ?_, fun _ => le_rfl, fun _ _ _ => Nat.zero_le _⟩
    simp only [dedentLines, least, List.singleton_append]
  | some width =>
    have bound := (leastIndentation?_eq_some.mp least).2
    by_cases flush : !allBlank first && indentation first = 0 && 0 < width
    · have shown : allBlank first = false := by simp_all
      refine ⟨0, width, ?_, fun _ => Nat.zero_le _, bound⟩
      simp only [dedentLines, least, if_pos flush, unindent_of_shown shown, List.drop_zero]
    · refine ⟨((leastIndentation? [first]).map (min width)).getD width,
        ((leastIndentation? [first]).map (min width)).getD width, ?_, ?_, ?_⟩
      · simp only [dedentLines, least, if_neg flush, List.map_cons]
      · intro shown
        have own : leastIndentation? [first] = some (indentation first) :=
          leastIndentation?_eq_some.mpr ⟨⟨first, by simp, shown, rfl⟩, by simp⟩
        rw [own]
        exact min_le_right width (indentation first)
      · intro l member shown
        refine le_trans ?_ (bound l member shown)
        cases leastIndentation? [first] with
        | none => exact le_rfl
        | some own => exact min_le_left width own

private theorem map_trim_dedentLines (ls : List (List Char)) : (dedentLines ls).map trim = ls.map trim := by
  cases ls with
  | nil => rfl
  | cons first later =>
    obtain ⟨here, there, same, own, others⟩ := exists_dedentLines first later
    rw [same, List.map_cons, trim_unindent own, List.map_map, List.map_cons]
    exact congrArg _ (List.map_congr_left fun l member => trim_unindent (others l member))

private theorem suffix_of_mem_dedentLines {ls : List (List Char)} {d : List Char} (member : d ∈ dedentLines ls) :
    ∃ l ∈ ls, d <:+ l := by
  cases ls with
  | nil => cases member
  | cons first later =>
    obtain ⟨here, there, same, -, -⟩ := exists_dedentLines first later
    rw [same] at member
    rcases List.mem_cons.mp member with rfl | mapped
    · exact ⟨first, List.mem_cons_self, unindent_suffix here first⟩
    · obtain ⟨l, listed, rfl⟩ := List.mem_map.mp mapped
      exact ⟨l, List.mem_cons_of_mem _ listed, unindent_suffix there l⟩

/-- Behind a first line without indentation, the others lose their margin. -/
theorem dedentLines_of_flush {first : List Char} (shown : allBlank first = false) (flush : indentation first = 0)
    (later : List (List Char)) : dedentLines (first :: later) = first :: later.map (unindent (margin later)) := by
  have kept : unindent 0 first = first := unindent_of_shown shown 0
  cases least : leastIndentation? later with
  | none => simp only [dedentLines, margin, least, flush, kept, Option.getD_none, List.singleton_append]
  | some width =>
    have own : leastIndentation? [first] = some 0 :=
      leastIndentation?_eq_some.mpr ⟨⟨first, by simp, shown, flush⟩, by simp⟩
    rcases Nat.eq_zero_or_pos width with rfl | positive
    · simp [dedentLines, margin, least, own, kept]
    · simp [dedentLines, margin, least, shown, flush, positive]

/-! ## The whole body -/

/-- A line whose first character shows. -/
def Starts (line : List Char) : Prop := ∃ c, line.head? = some c ∧ isBlank c = false

private theorem Starts.shown {line : List Char} (starts : Starts line) : allBlank line = false := by
  obtain ⟨c, head, shown⟩ := starts
  exact Text.allBlank_eq_false_iff.mpr ⟨c, List.mem_of_mem_head? head, shown⟩

private theorem Starts.trimStart_eq {line : List Char} (starts : Starts line) : Text.trimStart line = line := by
  obtain ⟨c, head, shown⟩ := starts
  exact Text.trimStart_eq_self fun d same => by rwa [head, Option.some.injEq] at same ▸ shown

private theorem Starts.indentation_eq {line : List Char} (starts : Starts line) : indentation line = 0 := by
  obtain ⟨c, head, shown⟩ := starts
  obtain ⟨rest, rfl⟩ := List.head?_eq_some_iff.mp head
  exact indentation_cons_of_shown shown rest

theorem Starts.trimEnd {line : List Char} (starts : Starts line) : Starts (Text.trimEnd line) := by
  obtain ⟨c, head, shown⟩ := starts
  obtain ⟨rest, rfl⟩ := List.head?_eq_some_iff.mp head
  exact ⟨c, by rw [Text.trimEnd_cons_of_shown shown]; rfl, shown⟩

/-- The lines that are joined and trimmed. -/
theorem mem_trimmed_dedentLines {body l : List Char} (member : l ∈ (dedentLines (lines body)).map trimEnd) :
    Flat l ∧ trimEnd l = l := by
  obtain ⟨d, listed, rfl⟩ := List.mem_map.mp member
  obtain ⟨source, given, suffix⟩ := suffix_of_mem_dedentLines listed
  refine ⟨fun feed => Text.flat_of_mem_lines given (suffix.subset ?_), Text.trimEnd_trimEnd d⟩
  exact (List.rdropWhile_prefix isBlank d).subset feed

/-- What the lines show does not change, but for the blank lines at the ends of the body. -/
theorem map_trim_lines_dedent {body : List Char} (shows : ∃ line ∈ lines body, allBlank line = false) :
    (lines (dedent body)).map trim = (inner (lines body)).map trim := by
  have same : ((dedentLines (lines body)).map trimEnd).map trim = (lines body).map trim := by
    have plain : trim ∘ trimEnd = trim := funext Text.trim_trimEnd
    rw [List.map_map, plain, map_trim_dedentLines]
  have filled : ∃ l ∈ (dedentLines (lines body)).map trimEnd, allBlank l = false := by
    obtain ⟨line, member, shown⟩ := shows
    have shape : trim line ∈ ((dedentLines (lines body)).map trimEnd).map trim :=
      same ▸ List.mem_map_of_mem member
    obtain ⟨l, listed, alike⟩ := List.mem_map.mp shape
    exact ⟨l, listed, by rw [← Text.allBlank_trim, alike, Text.allBlank_trim, shown]⟩
  rw [dedent, Text.map_trim_lines_trim_unlines (fun l member => (mem_trimmed_dedentLines member).1)
    (fun l member => (mem_trimmed_dedentLines member).2) filled, Text.map_trim_inner, same, ← Text.map_trim_inner]

/-- No line of a body ends with a blank. -/
theorem trimEnd_of_mem_lines_dedent {body l : List Char} (member : l ∈ lines (dedent body)) : trimEnd l = l := by
  refine Text.trimEnd_of_mem_lines_trim_unlines (fun d listed => ?_) (fun d listed => ?_) member
  · exact (mem_trimmed_dedentLines listed).1
  · exact (mem_trimmed_dedentLines listed).2

/-- The lines of a body whose first line starts the text. -/
theorem lines_dedent_of_starts {first : List Char} {later : List (List Char)}
    (flat : ∀ l ∈ first :: later, Flat l) (starts : Starts first) :
    lines (dedent (unlines (first :: later))) =
      trimEnd first ::
        (later.map fun l => trimEnd (unindent (margin later) l)).rdropWhile allBlank := by
  have read : lines (unlines (first :: later)) = first :: later := Text.lines_unlines (by simp) flat
  have shape : (dedentLines (lines (unlines (first :: later)))).map trimEnd =
      trimEnd first :: later.map fun l => trimEnd (unindent (margin later) l) := by
    rw [read, dedentLines_of_flush starts.shown starts.indentation_eq, List.map_cons, List.map_map]
    rfl
  have opened : (trimEnd first :: later.map fun l => trimEnd (unindent (margin later) l)).dropWhile allBlank =
      trimEnd first :: later.map fun l => trimEnd (unindent (margin later) l) :=
    List.dropWhile_cons_of_neg (by simp [starts.shown])
  rw [dedent, Text.lines_trim_unlines (fun l member => (mem_trimmed_dedentLines member).1)
    (fun l member => (mem_trimmed_dedentLines member).2) (by rw [shape]; exact opened),
    starts.trimEnd.trimStart_eq, Text.rdropWhile_cons_of_shown starts.trimEnd.shown]

end LiterateRuby.Ruby
