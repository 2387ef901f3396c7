import LiterateRuby.Proofs.Text.Trim
import Mathlib.Data.List.Infix
import Mathlib.Tactic.Common

/-! # Scoped names

A segment of a scoped name holds no double colon, and a text without one is a name of one segment. What
is left of a segment when it is trimmed is a name of one segment again.
-/

namespace LiterateRuby.Text

/-- A text without a double colon. -/
def Unscoped (cs : List Char) : Prop := ¬[':', ':'] <:+: cs

private theorem Unscoped.within {part whole : List Char} (unscoped : Unscoped whole) (inside : part <:+: whole) :
    Unscoped part :=
  fun colons => unscoped (colons.trans inside)

theorem splitScope_ne_nil (cs : List Char) : splitScope cs ≠ [] := by
  fun_cases splitScope cs <;> simp

/-- The first segment starts the text, and no segment holds a double colon. -/
theorem splitScope_pieces (cs : List Char) :
    (∀ piece, (splitScope cs).head? = some piece → piece <+: cs) ∧
      ∀ piece ∈ splitScope cs, Unscoped piece := by
  fun_induction splitScope cs with
  | case1 => simp [Unscoped]
  | case2 rest ih =>
    refine ⟨by simp, ?_⟩
    rintro piece (_ | ⟨_, member⟩)
    · simp [Unscoped]
    · exact ih.2 piece member
  | case3 c rest single nothing ih => exact absurd nothing (splitScope_ne_nil rest)
  | case4 c rest single piece more pieces ih =>
    rw [pieces] at ih
    have starts : piece <+: rest := ih.1 piece rfl
    refine ⟨by simpa using starts, ?_⟩
    rintro other (_ | ⟨_, member⟩)
    · intro colons
      rcases List.infix_cons_iff.mp colons with first | later
      · -- the second colon would stand first in the rest
        obtain ⟨same, second⟩ := List.cons_prefix_cons.mp first
        obtain ⟨tail, rfl⟩ := second.trans starts
        exact single tail same.symm rfl
      · exact ih.2 piece List.mem_cons_self later
    · exact ih.2 other (List.mem_cons_of_mem _ member)

private theorem unscoped_of_mem_splitScope {cs piece : List Char} (member : piece ∈ splitScope cs) :
    Unscoped piece :=
  (splitScope_pieces cs).2 piece member

private theorem splitScope_of_unscoped {cs : List Char} (unscoped : Unscoped cs) : splitScope cs = [cs] := by
  fun_induction splitScope cs with
  | case1 => rfl
  | case2 rest ih => exact absurd ⟨[], rest, rfl⟩ unscoped
  | case3 c rest single nothing ih => exact absurd nothing (splitScope_ne_nil rest)
  | case4 c rest single piece more pieces ih =>
    have whole := ih (unscoped.within (List.suffix_cons c rest).isInfix)
    rw [pieces] at whole
    cases whole
    rfl

/-- The segments of a text, joined again, are the text. -/
theorem intercalate_splitScope (cs : List Char) : [':', ':'].intercalate (splitScope cs) = cs := by
  fun_induction splitScope cs with
  | case1 => rfl
  | case2 rest ih =>
    obtain ⟨piece, more, pieces⟩ := List.exists_cons_of_ne_nil (splitScope_ne_nil rest)
    rw [pieces] at ih ⊢
    rw [List.intercalate_cons_cons, ih]
    rfl
  | case3 c rest single nothing ih => exact absurd nothing (splitScope_ne_nil rest)
  | case4 c rest single piece more pieces ih =>
    rw [pieces] at ih
    rw [← ih]
    cases more <;> simp [List.intercalate_cons_cons]

/-- A text without colons is the first segment of what a double colon after it starts. -/
theorem splitScope_append {cs : List Char} (plain : ':' ∉ cs) (rest : List Char) :
    splitScope (cs ++ ':' :: ':' :: rest) = cs :: splitScope rest := by
  induction cs with
  | nil => rfl
  | cons c more ih =>
    have different : c ≠ ':' := fun same => plain (same ▸ List.mem_cons_self)
    have later := ih fun member => plain (List.mem_cons_of_mem _ member)
    rw [List.cons_append, splitScope, later]
    intro tail same
    exact absurd same different

/-- The segments of a scoped name are those that it was joined from. -/
theorem splitScope_intercalate {segments : List (List Char)} (given : segments ≠ [])
    (plain : ∀ segment ∈ segments, ':' ∉ segment) :
    splitScope ([':', ':'].intercalate segments) = segments := by
  induction segments with
  | nil => exact absurd rfl given
  | cons segment rest ih =>
    have first := plain segment List.mem_cons_self
    cases rest with
    | nil =>
      rw [List.intercalate_singleton]
      apply splitScope_of_unscoped
      intro colons
      exact first (colons.subset List.mem_cons_self)
    | cons next following =>
      have later := ih (by simp) fun other member => plain other (List.mem_cons_of_mem _ member)
      rw [List.intercalate_cons_cons, List.append_assoc, List.cons_append, List.singleton_append,
        splitScope_append first, later]

/-- Trimming the segments of a name does not make it longer. -/
theorem length_intercalate_trim_le (separator : List Char) (pieces : List (List Char)) :
    (separator.intercalate (pieces.map trim)).length ≤ (separator.intercalate pieces).length := by
  induction pieces with
  | nil => exact le_rfl
  | cons piece rest ih =>
    have first := (trim_within piece).length_le
    cases rest with
    | nil => simpa using first
    | cons next more =>
      rw [List.map_cons] at ih ⊢
      simp only [List.map_cons, List.intercalate_cons_cons, List.length_append] at ih ⊢
      omega

/-- A trimmed segment is a name of one segment. -/
theorem scopeSegments_trim {cs piece : List Char} (member : piece ∈ splitScope cs) :
    scopeSegments (String.ofList (trim piece)) = [String.ofList (trim piece)] := by
  have unscoped := (unscoped_of_mem_splitScope member).within (trim_within piece)
  simp [scopeSegments, splitScope_of_unscoped unscoped]

end LiterateRuby.Text
