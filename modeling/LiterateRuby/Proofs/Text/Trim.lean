import LiterateRuby.Text.Line
import LiterateRuby.Text.Word
import Mathlib.Data.List.Infix
import Mathlib.Data.List.TakeWhile
import Mathlib.Tactic.Common

/-! # Trimmed text

A text is trimmed if no blank stands at its ends. Trimming gives such a text, leaves it as it is, and does
not notice blanks that are put around it. No character of a name is blank.
-/

namespace LiterateRuby.Text

def Trimmed (cs : List Char) : Prop :=
  (∀ c, cs.head? = some c → isBlank c = false) ∧ ∀ c, cs.getLast? = some c → isBlank c = false

instance (cs : List Char) : Decidable (Trimmed cs) :=
  decidable_of_iff (cs.head?.all (!isBlank ·) = true ∧ cs.getLast?.all (!isBlank ·) = true) <| by
    simp [Trimmed, Option.all_eq_true]

theorem trimmed_of_shown {cs : List Char} (shown : ∀ c ∈ cs, isBlank c = false) : Trimmed cs :=
  ⟨fun c first => shown c (List.mem_of_mem_head? first), fun c last => shown c (List.mem_of_getLast? last)⟩

theorem shown_of_all {cs : List Char} (all : cs.all (fun c => !isBlank c) = true) :
    ∀ c ∈ cs, isBlank c = false := by
  simpa using all

theorem trimStart_eq_self {cs : List Char} (start : ∀ c, cs.head? = some c → isBlank c = false) :
    trimStart cs = cs := by
  cases cs with
  | nil => rfl
  | cons c rest =>
    have first := start c rfl
    rw [trimStart, List.dropWhile_cons_of_neg (by simp [first])]

theorem trimEnd_eq_self {cs : List Char} (stop : ∀ c, cs.getLast? = some c → isBlank c = false) :
    trimEnd cs = cs := by
  have reversed : trimStart cs.reverse = cs.reverse := by
    apply trimStart_eq_self
    intro c last
    rw [List.head?_reverse] at last
    exact stop c last
  unfold trimEnd
  rw [← trimStart, reversed, List.reverse_reverse]

theorem Trimmed.trim_eq {cs : List Char} (trimmed : Trimmed cs) : trim cs = cs := by
  rw [trim, trimStart_eq_self trimmed.1, trimEnd_eq_self trimmed.2]

theorem length_trim_le (cs : List Char) : (trim cs).length ≤ cs.length := by
  have ends : (trim cs).length ≤ (trimStart cs).length := by
    rw [trim, trimEnd, List.length_reverse]
    simpa using (List.dropWhile_sublist isBlank (l := (trimStart cs).reverse)).length_le
  exact ends.trans (List.dropWhile_sublist isBlank).length_le

theorem trimStart_append_of_blank {blanks : List Char} (blank : allBlank blanks = true)
    (cs : List Char) : trimStart (blanks ++ cs) = trimStart cs := by
  induction blanks with
  | nil => rfl
  | cons c rest ih =>
    have parts : isBlank c = true ∧ allBlank rest = true := by simpa [allBlank] using blank
    rw [List.cons_append, trimStart, List.dropWhile_cons_of_pos parts.1]
    exact ih parts.2

theorem trimEnd_append_of_blank {blanks : List Char} (blank : allBlank blanks = true)
    (cs : List Char) : trimEnd (cs ++ blanks) = trimEnd cs := by
  have turned : allBlank blanks.reverse = true := by simpa [allBlank] using blank
  unfold trimEnd
  rw [List.reverse_append, ← trimStart, trimStart_append_of_blank turned, trimStart]

/-- Blanks before a text are not noticed. -/
theorem trim_append_left {blanks : List Char} (blank : allBlank blanks = true) (cs : List Char) :
    trim (blanks ++ cs) = trim cs := by
  rw [trim, trimStart_append_of_blank blank, trim]

/-- What is left of a text whose start holds something else than blanks starts there. -/
theorem trimStart_append {cs : List Char} (content : allBlank cs = false) (rest : List Char) :
    trimStart (cs ++ rest) = trimStart cs ++ rest := by
  induction cs with
  | nil => simp [allBlank] at content
  | cons c more ih =>
    cases blank : isBlank c with
    | true =>
      have remains : allBlank more = false := by simpa [allBlank, blank] using content
      rw [List.cons_append, trimStart, List.dropWhile_cons_of_pos blank, trimStart,
        List.dropWhile_cons_of_pos blank]
      exact ih remains
    | false =>
      rw [List.cons_append, trimStart, List.dropWhile_cons_of_neg (by simp [blank]), trimStart,
        List.dropWhile_cons_of_neg (by simp [blank]), List.cons_append]

/-- What is left of a text whose end holds something else than blanks ends there. -/
theorem trimEnd_append {rest : List Char} (content : allBlank rest = false) (cs : List Char) :
    trimEnd (cs ++ rest) = cs ++ trimEnd rest := by
  have turned : allBlank rest.reverse = false := by simpa [allBlank] using content
  unfold trimEnd
  rw [List.reverse_append, ← trimStart, trimStart_append turned, List.reverse_append, List.reverse_reverse,
    trimStart]

theorem trimEnd_cons_of_shown {c : Char} (shown : isBlank c = false) (rest : List Char) :
    trimEnd (c :: rest) = c :: trimEnd rest := by
  cases content : allBlank rest with
  | true =>
    have alone := trimEnd_append_of_blank content [c]
    have nothing := trimEnd_append_of_blank content []
    rw [List.nil_append] at nothing
    rw [← List.singleton_append, alone, nothing, trimEnd_eq_self (by simpa using shown)]
    rfl
  | false => exact trimEnd_append content [c]

/-- Blanks after a text are not noticed. -/
@[simp] theorem trimEnd_trimEnd (cs : List Char) : trimEnd (trimEnd cs) = trimEnd cs := by
  have shown := List.dropWhile_get_zero_not isBlank cs.reverse
  rw [trimEnd, trimEnd, List.reverse_reverse, List.dropWhile_eq_self_iff.mpr fun given => by simpa using shown given]

theorem trim_append_right {blanks : List Char} (blank : allBlank blanks = true) (cs : List Char) :
    trim (cs ++ blanks) = trim cs := by
  cases content : allBlank cs with
  | true =>
    have all : allBlank (cs ++ blanks) = true := by
      simpa [allBlank] using And.intro (List.all_eq_true.mp content) (List.all_eq_true.mp blank)
    rw [trim_of_allBlank content, trim_of_allBlank all]
  | false => rw [trim, trimStart_append content, trimEnd_append_of_blank blank, trim]

theorem shown_of_getLast?_trim {cs : List Char} {c : Char} (last : (trim cs).getLast? = some c) :
    isBlank c = false := by
  have shown := List.head?_dropWhile_not isBlank (trimStart cs).reverse
  rw [trim, trimEnd, List.getLast?_reverse] at last
  rwa [last] at shown

/-- What is not blank is left by trimming. -/
theorem trim_ne_nil {cs : List Char} {c : Char} (member : c ∈ cs) (shown : isBlank c = false) :
    trim cs ≠ [] := by
  intro nothing
  have kept : c ∈ trimStart cs := by
    rw [← List.takeWhile_append_dropWhile (p := isBlank) (l := cs), List.mem_append] at member
    refine member.resolve_left fun blank => ?_
    rw [List.mem_takeWhile_imp blank] at shown
    cases shown
  rw [trim, trimEnd, List.reverse_eq_nil_iff, List.dropWhile_eq_nil_iff] at nothing
  rw [nothing c (List.mem_reverse.mpr kept)] at shown
  cases shown

/-- An end of a text that does not end with a blank is not blank. -/
theorem trim_ne_nil_of_suffix {cs rest : List Char} (given : rest ≠ []) (ends : rest <:+ cs)
    (shown : ∀ c, cs.getLast? = some c → isBlank c = false) : trim rest ≠ [] := by
  obtain ⟨before, rfl⟩ := ends
  refine trim_ne_nil (List.getLast_mem given) (shown _ ?_)
  rw [List.getLast?_append_of_ne_nil _ given, List.getLast?_eq_some_getLast given]

theorem trimEnd_starts (cs : List Char) : trimEnd cs <+: cs := by
  have dropped : cs.reverse.dropWhile isBlank <:+ cs.reverse := List.dropWhile_suffix _
  simpa [trimEnd] using List.reverse_prefix.mpr dropped

theorem trim_within (cs : List Char) : trim cs <:+: cs :=
  (trimEnd_starts _).isInfix.trans (List.dropWhile_suffix _).isInfix

/-- Only blanks are taken from the ends of a text. -/
theorem exists_blanks_around (cs : List Char) :
    ∃ before after, allBlank before = true ∧ allBlank after = true ∧ cs = before ++ (trim cs ++ after) := by
  refine ⟨cs.takeWhile isBlank, ((trimStart cs).reverse.takeWhile isBlank).reverse, ?_, ?_, ?_⟩
  · exact List.all_eq_true.mpr fun c member => List.mem_takeWhile_imp member
  · rw [allBlank, List.all_reverse]
    exact List.all_eq_true.mpr fun c member => List.mem_takeWhile_imp member
  · rw [trim, trimEnd, ← List.reverse_append, List.takeWhile_append_dropWhile, List.reverse_reverse, trimStart,
      List.takeWhile_append_dropWhile]

theorem trimmed_trim (cs : List Char) : Trimmed (trim cs) := by
  refine ⟨fun c first => ?_, fun c last => shown_of_getLast?_trim last⟩
  have shown := List.head?_dropWhile_not isBlank cs
  obtain ⟨more, whole⟩ := trimEnd_starts (trimStart cs)
  rw [← trimStart, ← whole, ← trim, List.head?_append, first] at shown
  exact shown

theorem Trimmed.not_allBlank {cs : List Char} (trimmed : Trimmed cs) (nonempty : cs ≠ []) :
    allBlank cs = false := by
  obtain ⟨c, rest, rfl⟩ := List.exists_cons_of_ne_nil nonempty
  have first := trimmed.1 c rfl
  simp [allBlank, first]

/-- A text between two trimmed ones that are not empty has no blanks at its ends either. -/
theorem Trimmed.around {first second : List Char} (start : Trimmed first) (stop : Trimmed second)
    (given : first ≠ []) (more : second ≠ []) (middle : List Char) :
    Trimmed (first ++ (middle ++ second)) := by
  refine ⟨fun c head => ?_, fun c last => ?_⟩
  · rw [List.head?_append_of_ne_nil first given] at head
    exact start.1 c head
  · rw [← List.append_assoc, List.getLast?_append_of_ne_nil _ more] at last
    exact stop.2 c last

theorem mem_intercalate {c : α} {separator : List α} {pieces : List (List α)}
    (member : c ∈ separator.intercalate pieces) : c ∈ separator ∨ ∃ piece ∈ pieces, c ∈ piece := by
  induction pieces with
  | nil => cases member
  | cons piece rest ih =>
    cases rest with
    | nil =>
      rw [List.intercalate_singleton] at member
      exact .inr ⟨piece, List.mem_cons_self, member⟩
    | cons next following =>
      rw [List.intercalate_cons_cons] at member
      simp only [List.mem_append] at member
      rcases member with (here | between) | later
      · exact .inr ⟨piece, List.mem_cons_self, here⟩
      · exact .inl between
      · rcases ih later with between | ⟨other, listed, inside⟩
        · exact .inl between
        · exact .inr ⟨other, List.mem_cons_of_mem _ listed, inside⟩

/-- Trimmed pieces that are not empty make a trimmed text, whatever stands between them. -/
theorem trimmed_intercalate (separator : List Char) {pieces : List (List Char)} (given : pieces ≠ [])
    (each : ∀ piece ∈ pieces, Trimmed piece ∧ piece ≠ []) :
    Trimmed (separator.intercalate pieces) ∧ separator.intercalate pieces ≠ [] := by
  induction pieces with
  | nil => exact absurd rfl given
  | cons piece rest ih =>
    have first := each piece List.mem_cons_self
    cases rest with
    | nil => rwa [List.intercalate_singleton]
    | cons next following =>
      have later := ih (by simp) fun other member => each other (List.mem_cons_of_mem _ member)
      rw [List.intercalate_cons_cons, List.append_assoc]
      exact ⟨first.1.around later.1 first.2 later.2 separator, by simp [first.2]⟩

/-! ## Names -/

/-- Whether a code point lies in one of the ranges that flip points bound. -/
def inRanges : List Nat → Nat → Bool
  | start :: stop :: rest, code => (start ≤ code && code < stop) || inRanges rest code
  | [start], code => start ≤ code
  | [], _ => false

private theorem inRanges_of_scan {code : Nat} :
    ∀ {flips : List Nat}, CharSet.scan flips false code = true → inRanges flips code = true
  | [], member => by cases member
  | [start], member => by
    have reached : ¬code < start := by
      intro below
      rw [CharSet.scan_of_lt below] at member
      cases member
    simpa [inRanges] using reached
  | start :: stop :: rest, member => by
    simp only [CharSet.scan, Bool.not_false, Bool.not_true] at member
    simp only [inRanges, Bool.or_eq_true, Bool.and_eq_true, decide_eq_true_eq]
    split_ifs at member with below within
    · exact .inl ⟨by omega, within⟩
    · exact .inr (inRanges_of_scan member)

/-- The codes of the blank characters. -/
theorem blank_codes {c : Char} (blank : isBlank c = true) :
    (9 ≤ c.toNat ∧ c.toNat < 9 + 5) ∨ (28 ≤ c.toNat ∧ c.toNat < 28 + 5) ∨
      (0x85 ≤ c.toNat ∧ c.toNat < 0x85 + 1) ∨ (0xA0 ≤ c.toNat ∧ c.toNat < 0xA0 + 1) ∨
      (0x1680 ≤ c.toNat ∧ c.toNat < 0x1680 + 1) ∨ (0x2000 ≤ c.toNat ∧ c.toNat < 0x2000 + 11) ∨
      (0x2028 ≤ c.toNat ∧ c.toNat < 0x2028 + 2) ∨ (0x202F ≤ c.toNat ∧ c.toNat < 0x202F + 1) ∨
      (0x205F ≤ c.toNat ∧ c.toNat < 0x205F + 1) ∨ (0x3000 ≤ c.toNat ∧ c.toNat < 0x3000 + 1) := by
  have ranges := inRanges_of_scan blank
  simpa [blankSet, inRanges] using ranges

theorem shown_of_codes {c : Char} (least : 33 ≤ c.toNat) (most : c.toNat ≤ 126) : isBlank c = false := by
  cases blank : isBlank c with
  | false => rfl
  | true =>
    have codes := blank_codes blank
    omega

/-- No word character has a code in a range that the table of word characters leaves out. -/
theorem isWord_of_range {start length : Nat} {c : Char}
    (apart : (List.range length).all (fun offset => !CharSet.scan wordSet.flips false (start + offset)) = true)
    (within : start ≤ c.toNat ∧ c.toNat < start + length) : isWord c = false := by
  have offset : c.toNat - start < length := by omega
  have absent := List.all_eq_true.mp apart (c.toNat - start) (List.mem_range.mpr offset)
  have code : start + (c.toNat - start) = c.toNat := by omega
  rw [code] at absent
  simpa [isWord, CharSet.contains] using absent

/-- No character of a name is blank. -/
theorem isBlank_of_isWord {c : Char} (word : isWord c = true) : isBlank c = false := by
  cases blank : isBlank c with
  | false => rfl
  | true =>
    have absent : isWord c = false := by
      rcases blank_codes blank with r | r | r | r | r | r | r | r | r | r <;>
        exact isWord_of_range (by decide +kernel) r
    rw [word] at absent
    cases absent

end LiterateRuby.Text
