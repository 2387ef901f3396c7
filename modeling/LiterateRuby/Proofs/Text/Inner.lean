import LiterateRuby.Proofs.Text.Lines
import Mathlib.Data.List.DropRight

/-! # The lines inside a text

Trimming a text takes the blank lines at its start and its end, and the blanks at the outer ends of the first
and the last line that are left. The lines between stay as they are.
-/

namespace LiterateRuby.Text

@[simp] theorem allBlank_nil : allBlank [] = true := rfl

theorem allBlank_eq_false_iff {cs : List Char} : allBlank cs = false ↔ ∃ c ∈ cs, isBlank c = false := by
  simp [allBlank]

theorem eq_nil_of_trimEnd {cs : List Char} (same : trimEnd cs = cs) (blank : allBlank cs = true) : cs = [] := by
  have nothing := trimEnd_append_of_blank blank []
  rw [List.nil_append] at nothing
  rw [← same, nothing]
  rfl

@[simp] theorem allBlank_trimStart (cs : List Char) : allBlank (trimStart cs) = allBlank cs := by
  cases blank : allBlank cs with
  | true => rw [trimStart_of_allBlank blank, allBlank_nil]
  | false =>
    obtain ⟨c, member, shown⟩ := allBlank_eq_false_iff.mp blank
    have given := trim_ne_nil member shown
    refine Bool.eq_false_iff.mpr fun all => given ?_
    rw [trim, ← List.nil_append (trimStart cs), trimEnd_append_of_blank all]
    rfl

@[simp] theorem allBlank_trimEnd (cs : List Char) : allBlank (trimEnd cs) = allBlank cs := by
  have turned := allBlank_trimStart cs.reverse
  simpa [allBlank, trimStart, trimEnd] using turned

theorem allBlank_trim (cs : List Char) : allBlank (trim cs) = allBlank cs := by
  rw [trim, allBlank_trimEnd, allBlank_trimStart]

private theorem trimStart_trimStart (cs : List Char) : trimStart (trimStart cs) = trimStart cs :=
  List.dropWhile_idempotent isBlank cs

private theorem trim_trimStart (cs : List Char) : trim (trimStart cs) = trim cs := by
  rw [trim, trimStart_trimStart, trim]

theorem trim_trimEnd (cs : List Char) : trim (trimEnd cs) = trim cs := by
  have split : trimEnd cs ++ cs.rtakeWhile isBlank = cs := List.rdropWhile_append_rtakeWhile
  have blank : allBlank (cs.rtakeWhile isBlank) = true :=
    List.all_eq_true.mpr fun c member => List.mem_rtakeWhile_imp member
  conv_rhs => rw [← split]
  exact (trim_append_right blank _).symm

private theorem trimEnd_trimStart {cs : List Char} (same : trimEnd cs = cs) :
    trimEnd (trimStart cs) = trimStart cs := by
  cases blank : allBlank cs with
  | true => rw [trimStart_of_allBlank blank]; rfl
  | false =>
    have left : allBlank (trimStart cs) = false := by rw [allBlank_trimStart, blank]
    have split : cs.takeWhile isBlank ++ trimStart cs = cs := List.takeWhile_append_dropWhile
    rw [← split, trimEnd_append left] at same
    rw [← List.append_cancel_left same]
    simp

/-- The lines of a text without the blank ones at its start and its end. -/
def inner (ls : List (List Char)) : List (List Char) := (ls.dropWhile allBlank).rdropWhile allBlank

private theorem map_trim_rdropWhile (ls : List (List Char)) :
    (ls.rdropWhile allBlank).map trim = (ls.map trim).rdropWhile allBlank := by
  have same : allBlank ∘ trim = allBlank := funext allBlank_trim
  simp [List.rdropWhile, List.dropWhile_map, ← List.map_reverse, same]

theorem rdropWhile_cons_of_shown {l : List Char} (shown : allBlank l = false) (ls : List (List Char)) :
    (l :: ls).rdropWhile allBlank = l :: ls.rdropWhile allBlank := by
  induction ls using List.reverseRecOn with
  | nil => simp [List.rdropWhile_singleton, shown]
  | append_singleton before last ih =>
    cases blank : allBlank last with
    | true =>
      rw [← List.cons_append, List.rdropWhile_concat_pos _ _ _ blank, List.rdropWhile_concat_pos _ _ _ blank, ih]
    | false =>
      have kept : ¬allBlank last = true := by simp [blank]
      rw [← List.cons_append, List.rdropWhile_concat_neg _ _ _ kept, List.rdropWhile_concat_neg _ _ _ kept,
        List.cons_append]

/-- Which lines are inside depends on what they show. -/
theorem map_trim_inner (ls : List (List Char)) : (inner ls).map trim = inner (ls.map trim) := by
  have same : allBlank ∘ trim = allBlank := funext allBlank_trim
  rw [inner, map_trim_rdropWhile, inner, List.dropWhile_map, same]

/-- Blank lines at the start are not noticed. -/
theorem trimStart_unlines_of_blank {l : List Char} (blank : allBlank l = true) (ls : List (List Char)) :
    trimStart (unlines (l :: ls)) = trimStart (unlines ls) := by
  cases ls with
  | nil => exact trimStart_of_allBlank blank
  | cons next more =>
    have start : allBlank (l ++ ['\n']) = true := by
      simpa [allBlank] using And.intro (List.all_eq_true.mp blank) (by decide : isBlank '\n' = true)
    rw [unlines, joinOn_cons '\n' l (by simp), ← List.singleton_append, ← List.append_assoc,
      trimStart_append_of_blank start]
    rfl

private theorem trimStart_unlines_of_shown {l : List Char} (shown : allBlank l = false) (ls : List (List Char)) :
    trimStart (unlines (l :: ls)) = unlines (trimStart l :: ls) := by
  cases ls with
  | nil => rfl
  | cons next more =>
    have given : next :: more ≠ [] := by simp
    rw [unlines, joinOn_cons '\n' l given, trimStart_append shown, unlines, joinOn_cons '\n' _ given]

theorem trimStart_unlines_of_all {ls : List (List Char)} (blank : ∀ l ∈ ls, allBlank l = true) :
    trimStart (unlines ls) = [] := by
  induction ls with
  | nil => rfl
  | cons l rest ih =>
    rw [trimStart_unlines_of_blank (blank l List.mem_cons_self),
      ih fun other member => blank other (List.mem_cons_of_mem _ member)]

private theorem trimStart_unlines {ls rest : List (List Char)} {first : List Char}
    (start : ls.dropWhile allBlank = first :: rest) :
    trimStart (unlines ls) = unlines (trimStart first :: rest) := by
  induction ls with
  | nil => cases start
  | cons l more ih =>
    cases blank : allBlank l with
    | true =>
      rw [List.dropWhile_cons_of_pos blank] at start
      rw [trimStart_unlines_of_blank blank, ih start]
    | false =>
      rw [List.dropWhile_cons_of_neg (by simp [blank])] at start
      cases start
      exact trimStart_unlines_of_shown blank rest

/-- Blank lines at the end are not noticed; the last line that shows has no blanks at its end. -/
theorem trimEnd_unlines {ls : List (List Char)} (each : ∀ l ∈ ls, trimEnd l = l) :
    trimEnd (unlines ls) = unlines (ls.rdropWhile allBlank) := by
  induction ls using List.reverseRecOn with
  | nil => rfl
  | append_singleton before last ih =>
    have earlier : ∀ l ∈ before, trimEnd l = l := fun l member => each l (List.mem_append_left _ member)
    have same := each last (by simp)
    cases blank : allBlank last with
    | true =>
      rw [List.rdropWhile_concat_pos _ _ _ blank, ← ih earlier, eq_nil_of_trimEnd same blank]
      by_cases empty : before = []
      · rw [empty]; rfl
      · rw [unlines_concat_nil empty]
        exact trimEnd_append_of_blank (by decide) _
    | false =>
      rw [List.rdropWhile_concat_neg _ _ _ (by simp [blank])]
      by_cases empty : before = []
      · simpa [empty, unlines, joinOn] using same
      · rw [unlines_append empty (by simp), ← List.singleton_append, ← List.append_assoc]
        rw [trimEnd_append (by simpa [unlines, joinOn] using blank)]
        simp only [unlines, joinOn, same]

/-- Lines after the blank ones at the start still have no blanks at their ends. -/
theorem trimEnd_of_dropWhile {ls rest : List (List Char)} {first : List Char} (each : ∀ l ∈ ls, trimEnd l = l)
    (start : ls.dropWhile allBlank = first :: rest) : ∀ l ∈ trimStart first :: rest, trimEnd l = l := by
  have inside : ∀ l ∈ first :: rest, trimEnd l = l := fun l member =>
    each l ((List.dropWhile_sublist allBlank).subset (start ▸ member))
  intro l member
  rcases List.mem_cons.mp member with rfl | later
  · exact trimEnd_trimStart (inside first List.mem_cons_self)
  · exact inside l (List.mem_cons_of_mem _ later)

/-- The lines of a trimmed text, whose lines have no blanks at their ends. -/
theorem lines_trim_unlines {ls rest : List (List Char)} {first : List Char} (flat : ∀ l ∈ ls, Flat l)
    (each : ∀ l ∈ ls, trimEnd l = l) (start : ls.dropWhile allBlank = first :: rest) :
    lines (trim (unlines ls)) = (trimStart first :: rest).rdropWhile allBlank := by
  have inside : ∀ l ∈ first :: rest, Flat l := fun l member =>
    flat l ((List.dropWhile_sublist allBlank).subset (start ▸ member))
  have shown : allBlank first = false := by
    have head := List.head?_dropWhile_not allBlank ls
    rw [start] at head
    simpa using head
  have plain : ∀ l ∈ trimStart first :: rest, Flat l := by
    intro l member
    rcases List.mem_cons.mp member with rfl | later
    · exact fun feed => inside first List.mem_cons_self ((List.dropWhile_sublist isBlank).subset feed)
    · exact inside l (List.mem_cons_of_mem _ later)
  have left : (trimStart first :: rest).rdropWhile allBlank ≠ [] := by
    intro nothing
    have all := List.rdropWhile_eq_nil_iff.mp nothing _ List.mem_cons_self
    rw [allBlank_trimStart, shown] at all
    cases all
  rw [trim, trimStart_unlines start, trimEnd_unlines (trimEnd_of_dropWhile each start)]
  exact lines_unlines left fun l member => plain l ((List.rdropWhile_prefix allBlank _).subset member)

/-- Lines of a trimmed text have no blanks at their ends if the lines that were joined have none. -/
theorem trimEnd_of_mem_lines_trim_unlines {ls : List (List Char)} (flat : ∀ l ∈ ls, Flat l)
    (each : ∀ l ∈ ls, trimEnd l = l) {l : List Char} (member : l ∈ lines (trim (unlines ls))) :
    trimEnd l = l := by
  cases start : ls.dropWhile allBlank with
  | nil =>
    have nothing : trim (unlines ls) = [] := by
      rw [trim, trimStart_unlines_of_all (List.dropWhile_eq_nil_iff.mp start)]
      rfl
    rw [nothing] at member
    rw [List.mem_singleton.mp member]
    rfl
  | cons first rest =>
    rw [lines_trim_unlines flat each start] at member
    exact trimEnd_of_dropWhile each start l ((List.rdropWhile_prefix allBlank _).subset member)

/-- What the lines of a trimmed text show is what the lines inside the text show. -/
theorem map_trim_lines_trim_unlines {ls : List (List Char)} (flat : ∀ l ∈ ls, Flat l)
    (each : ∀ l ∈ ls, trimEnd l = l) (shows : ∃ l ∈ ls, allBlank l = false) :
    (lines (trim (unlines ls))).map trim = (inner ls).map trim := by
  cases start : ls.dropWhile allBlank with
  | nil =>
    obtain ⟨l, member, shown⟩ := shows
    rw [List.dropWhile_eq_nil_iff.mp start l member] at shown
    cases shown
  | cons first rest =>
    have same : (trimStart first :: rest).map trim = (first :: rest).map trim := by
      rw [List.map_cons, trim_trimStart, List.map_cons]
    rw [lines_trim_unlines flat each start, map_trim_rdropWhile, same, ← map_trim_rdropWhile, inner, start]

end LiterateRuby.Text
