import LiterateRuby.Literate.Heading
import LiterateRuby.Proofs.Text.Trim
import Mathlib.Data.List.DropRight

/-! # Lines that are headings

A line is a heading exactly if it has one to three number signs, a gap of spaces or tabs and a title whose first
character shows (`headingParts?_eq_some_iff`). What a line is as a heading follows from this: written signs and a
trimmed title are read as they stand (`heading?_signs`), and blanks around the title do not count
(`heading?_of_signs`, `heading?_trimEnd`).
-/

namespace LiterateRuby.Literate

open Text (isBlank allBlank trim trimEnd Trimmed)

private theorem isGap_of_shown {c : Char} (shown : isBlank c = false) : isGap c = false := by
  have space : c ≠ ' ' := by
    rintro rfl
    exact absurd shown (by decide)
  have tab : c ≠ '\t' := by
    rintro rfl
    exact absurd shown (by decide)
  simp [isGap, space, tab]

private theorem blank_of_isGap {c : Char} (gap : isGap c = true) : isBlank c = true := by
  by_contra shown
  rw [isGap_of_shown (by simpa using shown)] at gap
  cases gap

/-! ## Signs, gap and title -/

/-- Number signs end where another character stands. -/
theorem takeWhile_signs (level : Nat) {c : Char} (other : c ≠ '#') (rest : List Char) :
    (List.replicate level '#' ++ c :: rest).takeWhile (· == '#') = List.replicate level '#' := by
  rw [List.takeWhile_append_of_pos (by simp), List.takeWhile_cons_of_neg (by simpa using other), List.append_nil]

private theorem dropWhile_signs (level : Nat) {c : Char} (other : c ≠ '#') (rest : List Char) :
    (List.replicate level '#' ++ c :: rest).dropWhile (· == '#') = c :: rest := by
  rw [List.dropWhile_append_of_pos (by simp), List.dropWhile_cons_of_neg (by simpa using other)]

/-- The signs of a line and what follows them are determined by the line. -/
theorem signs_inj {level other : Nat} {c d : Char} {rest more : List Char} (first : c ≠ '#') (second : d ≠ '#')
    (same : List.replicate level '#' ++ c :: rest = List.replicate other '#' ++ d :: more) :
    level = other ∧ c :: rest = d :: more := by
  have signs := congrArg (fun line => (line.takeWhile (· == '#')).length) same
  simp only [takeWhile_signs _ first, takeWhile_signs _ second, List.length_replicate] at signs
  subst signs
  exact ⟨rfl, List.append_cancel_left same⟩

/-- A heading is one to three number signs, spaces or tabs, and a title whose first character shows. -/
theorem headingParts?_eq_some_iff {line title : List Char} {level : Nat} :
    headingParts? line = some (level, title) ↔
      ∃ gap gaps c rest, line = List.replicate level '#' ++ (gap :: gaps ++ title) ∧ 1 ≤ level ∧ level ≤ 3 ∧
        (∀ d ∈ gap :: gaps, isGap d = true) ∧ title = c :: rest ∧ isBlank c = false := by
  constructor
  · intro parts
    have signs : line.takeWhile (· == '#') = List.replicate (line.takeWhile (· == '#')).length '#' :=
      List.eq_replicate_of_mem fun d member => by simpa using List.mem_takeWhile_imp (p := (· == '#')) member
    have whole : line.takeWhile (· == '#') ++ line.dropWhile (· == '#') = line := List.takeWhile_append_dropWhile
    unfold headingParts? at parts
    dsimp only at parts
    split at parts
    · next gap after rest =>
      split at parts
      · next bounds =>
        simp only [Bool.and_eq_true, decide_eq_true_eq] at bounds
        split at parts
        · cases parts
        · next first following left =>
          split at parts
          · cases parts
          · next shown =>
            cases parts
            have gaps : (line.dropWhile (· == '#')).takeWhile isGap ++ first :: following =
                line.dropWhile (· == '#') := by
              rw [← left, List.takeWhile_append_dropWhile]
            obtain ⟨more, blanks⟩ : ∃ more, (line.dropWhile (· == '#')).takeWhile isGap = gap :: more := by
              rw [rest, List.takeWhile_cons_of_pos bounds.2]
              exact ⟨_, rfl⟩
            refine ⟨gap, more, first, following, ?_, bounds.1.1, bounds.1.2, ?_, rfl, by simpa using shown⟩
            · rw [← signs, ← blanks, gaps, whole]
            · exact fun d member => List.mem_takeWhile_imp (blanks ▸ member)
      · cases parts
    · cases parts
  · rintro ⟨gap, gaps, c, rest, rfl, least, most, each, rfl, shown⟩
    have gapped : isGap gap = true := each gap List.mem_cons_self
    have other : gap ≠ '#' := by
      rintro rfl
      exact absurd gapped (by decide)
    have title : (gap :: (gaps ++ c :: rest)).dropWhile isGap = c :: rest := by
      rw [← List.cons_append, List.dropWhile_append_of_pos each,
        List.dropWhile_cons_of_neg (by simp [isGap_of_shown shown])]
    unfold headingParts?
    dsimp only
    rw [List.cons_append, takeWhile_signs level other, dropWhile_signs level other, List.length_replicate]
    dsimp only
    rw [if_pos (by simp [least, most, gapped]), title]
    dsimp only
    rw [if_neg (by simp [shown])]

theorem headingParts?_of_head {c : Char} {rest : List Char} (other : c ≠ '#') :
    headingParts? (c :: rest) = none := by
  have empty : (c :: rest).takeWhile (· == '#') = [] := List.takeWhile_cons_of_neg (by simpa using other)
  have all : (c :: rest).dropWhile (· == '#') = c :: rest := List.dropWhile_cons_of_neg (by simpa using other)
  simp [headingParts?, empty, all]

/-- Number signs, a space and a title are the parts of a heading. -/
theorem headingParts?_signs {level : Nat} (least : 1 ≤ level) (most : level ≤ 3) {c : Char}
    (shown : isBlank c = false) (rest : List Char) :
    headingParts? (List.replicate level '#' ++ ' ' :: c :: rest) = some (level, c :: rest) :=
  headingParts?_eq_some_iff.mpr ⟨' ', [], c, rest, rfl, least, most,
    List.forall_mem_singleton.mpr rfl, rfl, shown⟩

/-! ## The heading -/

theorem heading?_level {line : List Char} {heading : Heading} (found : heading? line = some heading) :
    heading.level = 1 ∨ heading.level = 2 ∨ heading.level = 3 := by
  obtain ⟨⟨level, title⟩, parts, rfl⟩ := Option.map_eq_some_iff.mp found
  obtain ⟨_, _, _, _, _, least, most, _⟩ := headingParts?_eq_some_iff.mp parts
  dsimp only
  omega

/-- Number signs, a space and a title are a heading. -/
theorem heading?_signs {level : Nat} (least : 1 ≤ level) (most : level ≤ 3) {title : List Char}
    (trimmed : Trimmed title) (given : title ≠ []) :
    heading? (List.replicate level '#' ++ ' ' :: title) = some ⟨level, title⟩ := by
  obtain ⟨c, rest, rfl⟩ := List.exists_cons_of_ne_nil given
  rw [heading?, headingParts?_signs least most (trimmed.1 c rfl), Option.map_some]
  dsimp only
  rw [Text.trimEnd_eq_self trimmed.2]

/-- What a line of number signs and a title is read as, if it is a heading: blanks around the title do not count. -/
theorem heading?_of_signs {level : Nat} (title : List Char) {heading : Heading}
    (found : heading? (List.replicate level '#' ++ ' ' :: title) = some heading) :
    heading = ⟨level, trim title⟩ := by
  obtain ⟨⟨own, text⟩, parts, rfl⟩ := Option.map_eq_some_iff.mp found
  obtain ⟨gap, gaps, c, rest, whole, -, -, each, rfl, shown⟩ := headingParts?_eq_some_iff.mp parts
  have other : gap ≠ '#' := by
    rintro rfl
    exact absurd (each '#' List.mem_cons_self) (by decide)
  obtain ⟨rfl, same⟩ := signs_inj (by decide : ' ' ≠ '#') other whole
  have after : title = gaps ++ c :: rest := (List.cons.inj same).2
  have blank : allBlank gaps = true :=
    List.all_eq_true.mpr fun d member => blank_of_isGap (each d (List.mem_cons_of_mem _ member))
  rw [after, Text.trim_append_left blank, trim, Text.trimStart_eq_self (by simpa using shown)]

/-- Blanks at the end of a line are not part of its heading. -/
theorem heading?_trimEnd (line : List Char) : heading? (trimEnd line) = heading? line := by
  have written : trimEnd line ++ line.rtakeWhile isBlank = line := List.rdropWhile_append_rtakeWhile
  have blank : allBlank (line.rtakeWhile isBlank) = true :=
    List.all_eq_true.mpr fun c member => List.mem_rtakeWhile_imp member
  cases parts : headingParts? (trimEnd line) with
  | some found =>
    obtain ⟨level, title⟩ := found
    obtain ⟨gap, gaps, c, rest, whole, least, most, each, rfl, shown⟩ := headingParts?_eq_some_iff.mp parts
    have longer : headingParts? line = some (level, c :: rest ++ line.rtakeWhile isBlank) := by
      refine headingParts?_eq_some_iff.mpr ⟨gap, gaps, c, rest ++ line.rtakeWhile isBlank, ?_, least, most, each, rfl,
        shown⟩
      conv_lhs => rw [← written, whole]
      simp
    rw [heading?, heading?, parts, longer, Option.map_some, Option.map_some]
    dsimp only
    rw [Text.trimEnd_append_of_blank blank]
  | none =>
    cases longer : headingParts? line with
    | none => rw [heading?, heading?, parts, longer]
    | some found =>
      obtain ⟨level, title⟩ := found
      obtain ⟨gap, gaps, c, rest, rfl, least, most, each, rfl, shown⟩ := headingParts?_eq_some_iff.mp longer
      have filled : allBlank (c :: rest) = false := by simp [allBlank, shown]
      have shorter : headingParts? (trimEnd (List.replicate level '#' ++ (gap :: gaps ++ c :: rest))) =
          some (level, c :: trimEnd rest) := by
        rw [← List.append_assoc, Text.trimEnd_append filled, Text.trimEnd_cons_of_shown shown]
        exact headingParts?_eq_some_iff.mpr
          ⟨gap, gaps, c, trimEnd rest, List.append_assoc _ _ _, least, most, each, rfl, shown⟩
      rw [parts] at shorter
      cases shorter

end LiterateRuby.Literate
