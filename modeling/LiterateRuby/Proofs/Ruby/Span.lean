import LiterateRuby.Proofs.Ruby.Indent
import LiterateRuby.Render.Lines

/-! # Indentation that is put back

The span of a body that is written and read again starts at its first line; the writer has put its indentation
before the others. What it makes of a body that was read is the body of the file if the margin of the later lines
is the indentation of the file, and only then: the margin is a guess. The body itself is settled: after the first
pass the later lines have no margin left, so a second pass takes exactly what the writer put there.
-/

namespace LiterateRuby.Ruby

open Text (isBlank allBlank trim trimEnd lines unlines linesOf Flat inner)

/-- A line with an indentation before it, unless it is empty. -/
def indented (indent line : List Char) : List Char := if line = [] then [] else indent ++ line

/-- The lines of the span that a body has where it is written with an indentation. -/
def spanLines (indent body : String) : List String :=
  match linesOf body with
  | [] => []
  | first :: later => first :: Render.indentLines indent later

private theorem map_toList_indentLines (indent : String) (ls : List String) :
    (Render.indentLines indent ls).map String.toList = (ls.map String.toList).map (indented indent.toList) := by
  rw [Render.indentLines, List.map_map, List.map_map]
  refine List.map_congr_left fun l _ => ?_
  by_cases empty : l = ""
  · simp [indented, empty]
  · simp [indented, empty]

private theorem map_toList_spanLines {indent body : String} {first : List Char} {later : List (List Char)}
    (shape : lines body.toList = first :: later) :
    (spanLines indent body).map String.toList = first :: later.map (indented indent.toList) := by
  have strings : linesOf body = String.ofList first :: later.map String.ofList := by
    rw [linesOf, shape, List.map_cons]
  have back : (later.map String.ofList).map String.toList = later := by
    simp [List.map_map, Function.comp_def]
  rw [spanLines, strings, List.map_cons, String.toList_ofList, map_toList_indentLines, back]

/-! ## What was put before a line -/

private theorem allBlank_indented {indent : List Char} (blank : allBlank indent = true) (line : List Char) :
    allBlank (indented indent line) = allBlank line := by
  unfold indented
  split
  · next empty => rw [empty]
  · rw [allBlank, List.all_append, ← allBlank, blank, Bool.true_and, allBlank]

private theorem indented_of_shown {line : List Char} (shown : allBlank line = false) (indent : List Char) :
    indented indent line = indent ++ line := by
  refine if_neg ?_
  rintro rfl
  cases shown

/-- A line is the same again exactly if what was taken away is what is put there. -/
theorem indented_unindent_iff {indent line : List Char} {width : Nat} (shown : allBlank line = false)
    (within : width ≤ indentation line) :
    indented indent (unindent width line) = line ↔ indent <+: line ∧ width = indent.length := by
  have bound := within.trans (indentation_le line)
  have left : line.drop width ≠ [] := by
    intro nothing
    have blank := allBlank_take within
    rw [List.take_of_length_le (List.drop_eq_nil_iff.mp nothing), shown] at blank
    cases blank
  rw [unindent_of_shown shown, indented, if_neg left]
  constructor
  · intro same
    have long := congrArg List.length same
    rw [List.length_append, List.length_drop] at long
    exact ⟨⟨_, same⟩, by omega⟩
  · rintro ⟨⟨rest, rfl⟩, rfl⟩
    rw [List.drop_left]

private theorem margin_map_indented {indent : List Char} (blank : allBlank indent = true) {ls : List (List Char)}
    (visible : ∃ l ∈ ls, allBlank l = false) :
    margin (ls.map (indented indent)) = indent.length + margin ls := by
  obtain ⟨l, member, shown, least⟩ := exists_margin visible
  refine margin_eq ⟨indented indent l, List.mem_map_of_mem member, ?_, ?_⟩ fun d listed shows => ?_
  · rw [allBlank_indented blank, shown]
  · rw [indented_of_shown shown, indentation_append blank, least]
  · obtain ⟨source, given, rfl⟩ := List.mem_map.mp listed
    rw [allBlank_indented blank] at shows
    have bound := margin_le given shows
    rw [indented_of_shown shows, indentation_append blank]
    omega

/-- An indentation that all lines start with is their margin if some line has no more. -/
theorem margin_eq_length_iff {indent : List Char} (blank : allBlank indent = true) {ls : List (List Char)}
    (shows : ∃ l ∈ ls, allBlank l = false) (each : ∀ l ∈ ls, allBlank l = false → indent <+: l) :
    margin ls = indent.length ↔ ∃ l ∈ ls, allBlank l = false ∧ indentation l = indent.length := by
  constructor
  · intro same
    obtain ⟨l, member, shown, least⟩ := exists_margin shows
    exact ⟨l, member, shown, least.trans same⟩
  · intro reached
    refine margin_eq reached fun l member shown => ?_
    obtain ⟨rest, rfl⟩ := each l member shown
    rw [indentation_append blank]
    exact Nat.le_add_right _ _

/-! ## Bodies that are settled -/

/-- A body comes out of the span that it has where it is written, if its later lines have no margin. -/
theorem lines_dedent_of_settled {first : List Char} {later : List (List Char)} {indent : List Char}
    (blank : allBlank indent = true) (plain : Flat indent) (flat : ∀ l ∈ first :: later, Flat l)
    (ends : ∀ l ∈ first :: later, trimEnd l = l) (starts : Starts first) (settled : margin later = 0)
    (stops : later.rdropWhile allBlank = later) :
    lines (dedent (unlines (first :: later.map (indented indent)))) = first :: later := by
  have flats : ∀ l ∈ first :: later.map (indented indent), Flat l := by
    intro l member
    rcases List.mem_cons.mp member with rfl | mapped
    · exact flat l List.mem_cons_self
    · obtain ⟨source, given, rfl⟩ := List.mem_map.mp mapped
      unfold indented
      split
      · exact List.not_mem_nil
      · intro feed
        rcases List.mem_append.mp feed with before | inside
        · exact plain before
        · exact flat source (List.mem_cons_of_mem _ given) inside
  -- A line that shows loses what was put before it, as nothing else is common to all of them.
  have back : ∀ l ∈ later,
      trimEnd (unindent (margin (later.map (indented indent))) (indented indent l)) = l := by
    intro l member
    have same := ends l (List.mem_cons_of_mem _ member)
    cases shown : allBlank l with
    | true =>
      rw [Text.eq_nil_of_trimEnd same shown, unindent_of_blank (by simp [indented])]
      rfl
    | false =>
      rw [margin_map_indented blank ⟨l, member, shown⟩, settled, Nat.add_zero,
        unindent_of_shown (by rw [allBlank_indented blank, shown]), indented_of_shown shown, List.drop_left, same]
  have same : (later.map (indented indent)).map
      (fun l => trimEnd (unindent (margin (later.map (indented indent))) l)) = later := by
    rw [List.map_map]
    exact (List.map_congr_left back).trans (List.map_id later)
  rw [lines_dedent_of_starts flats starts, ends first List.mem_cons_self, same, stops]

private theorem margin_of_blank {ls : List (List Char)} (blank : ∀ l ∈ ls, allBlank l = true) : margin ls = 0 := by
  rw [margin, leastIndentation?_eq_none.mpr blank]
  rfl

private theorem mem_rdropWhile {ls : List (List Char)} {l : List Char} (member : l ∈ ls)
    (shown : allBlank l = false) :
    l ∈ ls.rdropWhile allBlank := by
  have split : ls.rdropWhile allBlank ++ ls.rtakeWhile allBlank = ls := List.rdropWhile_append_rtakeWhile
  rw [← split, List.mem_append] at member
  refine member.resolve_right fun blank => ?_
  rw [List.mem_rtakeWhile_imp blank] at shown
  cases shown

/-- Lines that have lost their margin have none. -/
theorem margin_unindented (later : List (List Char)) :
    margin ((later.map fun l => trimEnd (unindent (margin later) l)).rdropWhile allBlank) = 0 := by
  have alike : ∀ l ∈ later, allBlank (trimEnd (unindent (margin later) l)) = allBlank l := by
    intro l member
    rw [Text.allBlank_trimEnd, ← Text.allBlank_trim, trim_unindent (margin_le member), Text.allBlank_trim]
  by_cases visible : ∃ l ∈ later, allBlank l = false
  · obtain ⟨l, member, shown, least⟩ := exists_margin visible
    have shows := (alike l member).trans shown
    refine margin_eq ⟨_, mem_rdropWhile (List.mem_map_of_mem member) shows, shows, ?_⟩ fun _ _ _ => Nat.zero_le _
    have whole := indentation_drop (margin_le member shown)
    rw [unindent_of_shown shown, Text.allBlank_trimEnd] at shows
    rw [unindent_of_shown shown, indentation_trimEnd shows]
    omega
  · refine margin_of_blank fun d listed => ?_
    obtain ⟨l, member, rfl⟩ := List.mem_map.mp ((List.rdropWhile_prefix allBlank _).subset listed)
    rw [alike l member]
    by_contra shown
    exact visible ⟨l, member, by simpa using shown⟩

/-- The lines of a body that starts its text: nothing is left to take from the later ones. -/
theorem exists_lines_dedent {body : List Char} (starts : Starts body) :
    ∃ first later, lines (dedent body) = first :: later ∧ Starts first ∧ margin later = 0 ∧
      later.rdropWhile allBlank = later := by
  obtain ⟨first, later, shape⟩ := List.exists_cons_of_ne_nil (Text.lines_ne_nil body)
  have flat : ∀ l ∈ first :: later, Flat l := fun l member => Text.flat_of_mem_lines (shape ▸ member)
  have whole : unlines (first :: later) = body := by rw [← shape, Text.unlines_lines]
  have begins : Starts first := by
    obtain ⟨c, head, shown⟩ := starts
    have given : first ≠ [] := by
      rintro rfl
      cases later with
      | nil => rw [← whole] at head; cases head
      | cons next more =>
        rw [← whole, Text.unlines_nil_cons (by simp)] at head
        cases head
        exact absurd shown (by decide)
    exact ⟨c, by rw [← Text.head?_unlines given later, whole, head], shown⟩
  have read := lines_dedent_of_starts flat begins
  rw [whole] at read
  exact ⟨_, _, read, begins.trimEnd, margin_unindented later, List.rdropWhile_idempotent _ _⟩

/-- A body loses blanks only, and is settled: every line shows what it showed, the blank lines at the ends apart; no
line ends with a blank; and a body that starts its text comes out of the span that it has where it is written. -/
theorem dedent_settles {body : List Char} (shows : ∃ line ∈ lines body, allBlank line = false) :
    (lines (dedent body)).map trim = (inner (lines body)).map trim ∧
      (∀ line ∈ lines (dedent body), trimEnd line = line) ∧
        (Starts body → ∀ indent : String, (∀ c ∈ indent.toList, isBlank c = true ∧ c ≠ '\n') →
          dedent ("\n".intercalate (spanLines indent (String.ofList (dedent body)))).toList = dedent body) := by
  refine ⟨map_trim_lines_dedent shows, fun line => trimEnd_of_mem_lines_dedent, fun starts indent each => ?_⟩
  obtain ⟨first, later, shape, begins, settled, stops⟩ := exists_lines_dedent starts
  have blank : allBlank indent.toList = true := List.all_eq_true.mpr fun c member => (each c member).1
  have plain : Flat indent.toList := fun feed => (each _ feed).2 rfl
  have flat : ∀ l ∈ first :: later, Flat l := fun l member => Text.flat_of_mem_lines (shape ▸ member)
  have ends : ∀ l ∈ first :: later, trimEnd l = l := fun l member => trimEnd_of_mem_lines_dedent (shape ▸ member)
  have span : lines (String.ofList (dedent body)).toList = first :: later := by rw [String.toList_ofList, shape]
  have read := lines_dedent_of_settled blank plain flat ends begins settled stops
  rw [Text.toList_intercalate_lines, map_toList_spanLines span, ← Text.unlines_lines (dedent body), shape, ← read,
    Text.unlines_lines]

/-- A body with a margin of tabs and blanks, whose lines end with blanks and which is followed by a blank line. -/
theorem dedent_settles_of_mixed :
    (∃ line ∈ lines "if a  \n\t  b\t\n  \n\tend\n \n".toList, allBlank line = false) ∧
      Starts "if a  \n\t  b\t\n  \n\tend\n \n".toList ∧
      dedent "if a  \n\t  b\t\n  \n\tend\n \n".toList = "if a\n  b\n\nend".toList ∧
      dedent ("\n".intercalate (spanLines "\t " "if a\n  b\n\nend")).toList = "if a\n  b\n\nend".toList := by
  have shows : ∃ line ∈ lines "if a  \n\t  b\t\n  \n\tend\n \n".toList, allBlank line = false := by decide +kernel
  have starts : Starts "if a  \n\t  b\t\n  \n\tend\n \n".toList := ⟨'i', rfl, by decide⟩
  have text : dedent "if a  \n\t  b\t\n  \n\tend\n \n".toList = "if a\n  b\n\nend".toList := by decide +kernel
  refine ⟨shows, starts, text, ?_⟩
  have again := (dedent_settles shows).2.2 starts "\t " (by simp; decide)
  rwa [text, String.ofList_toList] at again

/-! ## Bodies that come back -/

/-- The lines of a body of the file whose lines have no blanks at their ends. -/
theorem lines_dedent_of_ends {first : List Char} {later : List (List Char)} (flat : ∀ l ∈ first :: later, Flat l)
    (ends : ∀ l ∈ first :: later, trimEnd l = l) (starts : Starts first) (stops : later.getLast? ≠ some []) :
    lines (dedent (unlines (first :: later))) = first :: later.map (unindent (margin later)) := by
  have each : ∀ l ∈ later, trimEnd (unindent (margin later) l) = unindent (margin later) l := by
    intro l member
    cases shown : allBlank l with
    | true => rw [unindent_of_blank shown]; rfl
    | false =>
      have same := ends l (List.mem_cons_of_mem _ member)
      have left : allBlank (l.drop (margin later)) = false := by
        rw [← Text.allBlank_trim, ← unindent_of_shown shown, trim_unindent (margin_le member), Text.allBlank_trim,
          shown]
      rw [unindent_of_shown shown]
      rw [← List.take_append_drop (margin later) l, Text.trimEnd_append left] at same
      exact List.append_cancel_left same
  have kept : (later.map (unindent (margin later))).rdropWhile allBlank = later.map (unindent (margin later)) := by
    refine List.rdropWhile_eq_self_iff.mpr fun given => ?_
    have filled : later ≠ [] := by simpa using given
    have member := List.getLast_mem filled
    rw [List.getLast_map, ← Text.allBlank_trim, trim_unindent (margin_le member), Text.allBlank_trim]
    intro blank
    rw [List.getLast?_eq_some_getLast filled,
      Text.eq_nil_of_trimEnd (ends _ (List.mem_cons_of_mem _ member)) blank] at stops
    exact stops rfl
  rw [lines_dedent_of_starts flat starts, ends first List.mem_cons_self, List.map_congr_left each, kept]

private theorem shown_iff_of_ends {line : List Char} (ends : trimEnd line = line) :
    allBlank line = false ↔ line ≠ [] := by
  constructor
  · rintro shown rfl
    cases shown
  · intro given
    exact Bool.eq_false_iff.mpr fun blank => given (Text.eq_nil_of_trimEnd ends blank)

/-- Lines come back exactly if each that is not empty starts with what is put before it, and this is their margin. -/
theorem map_indented_iff {indent : List Char} {later : List (List Char)} (ends : ∀ l ∈ later, trimEnd l = l) :
    (later.map (unindent (margin later))).map (indented indent) = later ↔
      ∀ l ∈ later, l ≠ [] → indent <+: l ∧ margin later = indent.length := by
  have each : ∀ l ∈ later, indented indent (unindent (margin later) l) = l ↔
      (l ≠ [] → indent <+: l ∧ margin later = indent.length) := by
    intro l member
    by_cases given : l = []
    · simp [given, unindent, indented]
    · have shown := (shown_iff_of_ends (ends l member)).mpr given
      simpa [given] using indented_unindent_iff shown (margin_le member shown)
  have pointwise : (later.map (unindent (margin later))).map (indented indent) = later ↔
      ∀ l ∈ later, indented indent (unindent (margin later) l) = l := by
    rw [List.map_map]
    conv_lhs => rhs; rw [← List.map_id later]
    exact List.map_inj_left
  rw [pointwise]
  exact forall₂_congr each

/-- The margin is the indentation of the file exactly if some line has no more. -/
theorem map_indented_iff_exists {indent : List Char} (blank : allBlank indent = true) {later : List (List Char)}
    (ends : ∀ l ∈ later, trimEnd l = l) (stops : later.getLast? ≠ some []) :
    (later.map (unindent (margin later))).map (indented indent) = later ↔
      (∀ l ∈ later, l ≠ [] → indent <+: l) ∧
        (later ≠ [] → ∃ l ∈ later, l ≠ [] ∧ indentation l = indent.length) := by
  have shown : ∀ l ∈ later, allBlank l = false ↔ l ≠ [] := fun l member => shown_iff_of_ends (ends l member)
  have filled : later ≠ [] → ∃ l ∈ later, l ≠ [] := by
    intro given
    refine ⟨later.getLast given, List.getLast_mem given, fun empty => stops ?_⟩
    rw [List.getLast?_eq_some_getLast given, empty]
  have least (given : later ≠ []) (each : ∀ l ∈ later, l ≠ [] → indent <+: l) :
      margin later = indent.length ↔ ∃ l ∈ later, l ≠ [] ∧ indentation l = indent.length := by
    obtain ⟨l, member, nonempty⟩ := filled given
    rw [margin_eq_length_iff blank ⟨l, member, (shown l member).mpr nonempty⟩
      fun d listed shows => each d listed ((shown d listed).mp shows)]
    exact exists_congr fun d => and_congr_right fun listed => and_congr_left' (shown d listed)
  rw [map_indented_iff ends]
  constructor
  · intro each
    have starts : ∀ l ∈ later, l ≠ [] → indent <+: l := fun l member nonempty => (each l member nonempty).1
    refine ⟨starts, fun given => (least given starts).mp ?_⟩
    obtain ⟨l, member, nonempty⟩ := filled given
    exact (each l member nonempty).2
  · rintro ⟨starts, reached⟩ l member nonempty
    have given := List.ne_nil_of_mem member
    exact ⟨starts l member nonempty, (least given starts).mpr (reached given)⟩

/-- A body comes back from where it is written with an indentation exactly if each later line that is not empty starts
with this indentation, and some later line has no more: then the margin is the indentation. -/
theorem spanLines_dedent_iff {indent first : String} {later : List String}
    (blank : ∀ c ∈ indent.toList, isBlank c = true) (flat : ∀ l ∈ first :: later, '\n' ∉ l.toList)
    (ends : ∀ l ∈ first :: later, trimEnd l.toList = l.toList) (starts : Starts first.toList)
    (stops : later.getLast? ≠ some "") :
    spanLines indent (String.ofList (dedent ("\n".intercalate (first :: later)).toList)) = first :: later ↔
      (∀ l ∈ later, l ≠ "" → indent.toList <+: l.toList) ∧
        (later ≠ [] → ∃ l ∈ later, l ≠ "" ∧ indentation l.toList = indent.length) := by
  have strings {p : List Char → Prop} (each : ∀ l ∈ first :: later, p l.toList) :
      ∀ l ∈ first.toList :: later.map String.toList, p l := by simpa using each
  have flats := strings (p := Flat) flat
  have shut := strings (p := fun l => trimEnd l = l) ends
  have last : (later.map String.toList).getLast? ≠ some [] := by simpa [List.getLast?_map] using stops
  have read := lines_dedent_of_ends flats shut starts last
  have span : lines (String.ofList (dedent ("\n".intercalate (first :: later)).toList)).toList =
      first.toList :: (later.map String.toList).map (unindent (margin (later.map String.toList))) := by
    rw [String.toList_ofList, Text.toList_intercalate_lines]
    exact read
  have injective := List.map_injective_iff.mpr fun _ _ => String.toList_inj.mp
  rw [← injective.eq_iff, map_toList_spanLines span, List.map_cons, List.cons_inj_right,
    map_indented_iff_exists (List.all_eq_true.mpr blank) (fun l member => shut l (List.mem_cons_of_mem _ member)) last]
  simp [String.length_toList]

/-- The text of a heredoc stands without indentation, and the body does not come back; it does where a line after it
stands at the indentation of the file. -/
theorem spanLines_dedent_iff_of_heredoc :
    spanLines "    " (String.ofList (dedent "y = <<EOS\ntext\nEOS\n    y".toList)) ≠
        ["y = <<EOS", "text", "EOS", "    y"] ∧
      spanLines "    " (String.ofList (dedent "y = <<~EOS\n      text\n    EOS\n\n    y".toList)) =
        ["y = <<~EOS", "      text", "    EOS", "", "    y"] := by
  constructor
  · intro same
    have each := ((@spanLines_dedent_iff "    " "y = <<EOS" ["text", "EOS", "    y"]
      (List.all_eq_true.mp (by decide)) (by decide +kernel) (by decide +kernel) ⟨'y', rfl, by decide⟩
      (by decide)).mp same).1
    exact absurd (each "text" (by simp) (by decide)) (by decide)
  · refine (@spanLines_dedent_iff "    " "y = <<~EOS" ["      text", "    EOS", "", "    y"]
      (List.all_eq_true.mp (by decide)) (by decide +kernel) (by decide +kernel) ⟨'y', rfl, by decide⟩
      (by decide)).mpr ⟨?_, ?_⟩
    · decide +kernel
    · exact fun _ => ⟨"    EOS", by simp, by decide, by decide +kernel⟩

end LiterateRuby.Ruby
