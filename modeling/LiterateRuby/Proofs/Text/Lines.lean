import LiterateRuby.Proofs.Text.Trim
import Mathlib.Data.List.Induction

/-! # Lines of a text

A text is split at its line feeds, and lines without line feeds are what their text is split into. Empty
lines before and after a text are blanks around it.
-/

namespace LiterateRuby.Text

theorem splitOn_append (separator : Char) (first second : List Char) :
    splitOn separator (first ++ separator :: second) = splitOn separator first ++ splitOn separator second := by
  induction first with
  | nil => simp [splitOn]
  | cons c rest ih =>
    rw [List.cons_append, splitOn, splitOn, ih]
    split
    · rfl
    · cases pieces : splitOn separator rest with
      | nil => exact absurd pieces (splitOn_ne_nil separator rest)
      | cons piece more => rfl

theorem splitOn_of_absent {separator : Char} {cs : List Char} (absent : separator ∉ cs) :
    splitOn separator cs = [cs] := by
  induction cs with
  | nil => rfl
  | cons c rest ih =>
    have different : c ≠ separator := fun same => absent (same ▸ List.mem_cons_self)
    have remains : separator ∉ rest := fun member => absent (List.mem_cons_of_mem _ member)
    rw [splitOn, if_neg different, ih remains]

private theorem absent_of_mem_splitOn {separator : Char} {cs piece : List Char}
    (member : piece ∈ splitOn separator cs) : separator ∉ piece := by
  induction cs generalizing piece with
  | nil =>
    have empty : piece = [] := by simpa [splitOn] using member
    simp [empty]
  | cons c rest ih =>
    rw [splitOn] at member
    split at member
    · rcases List.mem_cons.mp member with rfl | later
      · simp
      · exact ih later
    · next different =>
      cases pieces : splitOn separator rest with
      | nil => exact absurd pieces (splitOn_ne_nil separator rest)
      | cons first more =>
        rw [pieces] at member ih
        rcases List.mem_cons.mp member with rfl | later
        · have absent := ih List.mem_cons_self
          simp only [List.mem_cons, not_or]
          exact ⟨Ne.symm different, absent⟩
        · exact ih (List.mem_cons_of_mem _ later)

theorem joinOn_cons (separator : Char) (piece : List Char) {rest : List (List Char)} (more : rest ≠ []) :
    joinOn separator (piece :: rest) = piece ++ separator :: joinOn separator rest := by
  obtain ⟨next, following, rfl⟩ := List.exists_cons_of_ne_nil more
  rw [joinOn]
  simp

theorem joinOn_append (separator : Char) {first second : List (List Char)} (given : first ≠ [])
    (more : second ≠ []) :
    joinOn separator (first ++ second) = joinOn separator first ++ separator :: joinOn separator second := by
  induction first with
  | nil => exact absurd rfl given
  | cons piece rest ih =>
    cases rest with
    | nil => rw [List.singleton_append, joinOn_cons separator piece more, joinOn]
    | cons next following =>
      rw [List.cons_append, joinOn_cons separator piece (by simp), ih (by simp),
        joinOn_cons separator piece (by simp), List.append_assoc, List.cons_append]

/-- Pieces without the separator are what the joined text is split into. -/
theorem splitOn_joinOn {separator : Char} {pieces : List (List Char)} (given : pieces ≠ [])
    (absent : ∀ piece ∈ pieces, separator ∉ piece) : splitOn separator (joinOn separator pieces) = pieces := by
  induction pieces with
  | nil => exact absurd rfl given
  | cons piece rest ih =>
    have first := splitOn_of_absent (absent piece List.mem_cons_self)
    cases rest with
    | nil => exact first
    | cons next following =>
      have later := ih (by simp) fun other member => absent other (List.mem_cons_of_mem _ member)
      rw [joinOn_cons separator piece (by simp), splitOn_append, first, later, List.singleton_append]

/-- Pieces joined with a separator and a blank are found again when they are trimmed. -/
theorem map_trim_splitOn {separator : Char} {pieces : List (List Char)} (given : pieces ≠ [])
    (absent : ∀ piece ∈ pieces, separator ∉ piece) (trimmed : ∀ piece ∈ pieces, Trimmed piece)
    (apart : separator ≠ ' ') :
    (splitOn separator ([separator, ' '].intercalate pieces)).map trim = pieces := by
  induction pieces with
  | nil => exact absurd rfl given
  | cons piece rest ih =>
    have first := splitOn_of_absent (absent piece List.mem_cons_self)
    have same := (trimmed piece List.mem_cons_self).trim_eq
    cases rest with
    | nil => rw [List.intercalate_singleton, first, List.map_singleton, same]
    | cons next following =>
      have later := ih (by simp) (fun other member => absent other (List.mem_cons_of_mem _ member))
        fun other member => trimmed other (List.mem_cons_of_mem _ member)
      have spaced (cs : List Char) :
          (splitOn separator (' ' :: cs)).map trim = (splitOn separator cs).map trim := by
        obtain ⟨head, more, pieces⟩ := List.exists_cons_of_ne_nil (splitOn_ne_nil separator cs)
        have blank := @trim_append_left [' '] (by decide) head
        rw [splitOn, if_neg (Ne.symm apart), pieces, List.map_cons, List.map_cons]
        exact congrArg (· :: _) blank
      rw [List.intercalate_cons_cons, List.append_assoc, List.cons_append, List.singleton_append,
        splitOn_append, first, List.map_append, spaced, later, List.map_singleton, same,
        List.singleton_append]

def Flat (cs : List Char) : Prop := '\n' ∉ cs

instance (cs : List Char) : Decidable (Flat cs) := inferInstanceAs (Decidable ('\n' ∉ cs))

@[simp] theorem flat_append {first second : List Char} : Flat (first ++ second) ↔ Flat first ∧ Flat second := by
  simp [Flat]

@[simp] theorem flat_cons {c : Char} {cs : List Char} : Flat (c :: cs) ↔ c ≠ '\n' ∧ Flat cs := by
  simp [Flat, eq_comm]

theorem Flat.subset {cs ds : List Char} (flat : Flat cs) (within : ds ⊆ cs) : Flat ds := fun member =>
  flat (within member)

theorem lines_unlines {ls : List (List Char)} (given : ls ≠ []) (flat : ∀ l ∈ ls, Flat l) :
    lines (unlines ls) = ls := splitOn_joinOn given flat

theorem flat_of_mem_lines {cs l : List Char} (member : l ∈ lines cs) : Flat l :=
  absent_of_mem_splitOn member

/-- A text without line feeds and carriage returns. -/
def Unbroken (cs : List Char) : Prop := ∀ c ∈ cs, c ≠ '\n' ∧ c ≠ '\r'

theorem Unbroken.flat {cs : List Char} (unbroken : Unbroken cs) : Flat cs :=
  fun feed => (unbroken '\n' feed).1 rfl

theorem unbroken_of_shown {cs : List Char} (shown : ∀ c ∈ cs, isBlank c = false) : Unbroken cs := by
  intro c member
  refine ⟨?_, ?_⟩
  · rintro rfl
    exact absurd (shown _ member) (by decide)
  · rintro rfl
    exact absurd (shown _ member) (by decide)

@[simp] theorem unbroken_nil : Unbroken [] := by simp [Unbroken]

@[simp] theorem unbroken_append {first second : List Char} :
    Unbroken (first ++ second) ↔ Unbroken first ∧ Unbroken second := List.forall_mem_append

@[simp] theorem unbroken_cons {c : Char} {cs : List Char} :
    Unbroken (c :: cs) ↔ (c ≠ '\n' ∧ c ≠ '\r') ∧ Unbroken cs := List.forall_mem_cons

theorem unbroken_intercalate {separator : List Char} (between : Unbroken separator)
    {pieces : List (List Char)} (each : ∀ piece ∈ pieces, Unbroken piece) :
    Unbroken (separator.intercalate pieces) := by
  intro c member
  rcases mem_intercalate member with inside | ⟨piece, listed, inside⟩
  · exact between c inside
  · exact each piece listed c inside

theorem lines_ne_nil (cs : List Char) : lines cs ≠ [] := splitOn_ne_nil '\n' cs

theorem unlines_append {first second : List (List Char)} (given : first ≠ []) (more : second ≠ []) :
    unlines (first ++ second) = unlines first ++ '\n' :: unlines second := joinOn_append '\n' given more

/-- The lines of joined texts are those of each text. -/
theorem lines_unlines_flatMap {texts : List (List Char)} (given : texts ≠ []) :
    lines (unlines texts) = texts.flatMap lines := by
  induction texts with
  | nil => exact absurd rfl given
  | cons text rest ih =>
    by_cases more : rest = []
    · simp [more, unlines, joinOn]
    · have joined : unlines (text :: rest) = text ++ '\n' :: unlines rest := joinOn_cons '\n' text more
      rw [joined, lines, splitOn_append, ← lines, ← lines, ih more, List.flatMap_cons]

/-- Joined lines start with the first one, and a line break comes after it at the latest behind them all. -/
theorem unlines_cons_append (l : List Char) (ls : List (List Char)) :
    ∃ rest, unlines (l :: ls) = l ++ rest ∧ ∃ others, rest ++ ['\n'] = '\n' :: others := by
  cases ls with
  | nil => exact ⟨[], (List.append_nil l).symm, [], rfl⟩
  | cons next more =>
    exact ⟨'\n' :: unlines (next :: more), @unlines_append [l] (next :: more) (by simp) (by simp), _, rfl⟩

theorem unlines_concat_nil {ls : List (List Char)} (given : ls ≠ []) :
    unlines (ls ++ [[]]) = unlines ls ++ ['\n'] := unlines_append given (by simp)

theorem unlines_nil_cons {ls : List (List Char)} (given : ls ≠ []) :
    unlines ([] :: ls) = '\n' :: unlines ls := joinOn_cons '\n' [] given

theorem unlines_append_nil_cons {first second : List (List Char)} (given : first ≠ []) (more : second ≠ []) :
    unlines (first ++ [] :: second) = unlines first ++ ['\n', '\n'] ++ unlines second := by
  rw [unlines_append given (by simp), unlines_nil_cons more, List.append_assoc]
  rfl

/-- Lines that each end in a line feed are followed by an empty one. -/
theorem lines_unlines_concat_nil {ls : List (List Char)} (flat : ∀ l ∈ ls, Flat l) :
    lines (unlines (ls ++ [[]])) = ls ++ [[]] := by
  refine lines_unlines (by simp) fun l member => ?_
  rcases List.mem_append.mp member with line | empty
  · exact flat l line
  · rw [List.mem_singleton.mp empty]
    exact List.not_mem_nil

/-- An empty last line is not noticed when a text is trimmed. -/
theorem trim_unlines_concat_nil (ls : List (List Char)) : trim (unlines (ls ++ [[]])) = trim (unlines ls) := by
  cases ls with
  | nil => rfl
  | cons l rest =>
    rw [unlines_concat_nil (by simp)]
    exact trim_append_right (by decide) _

/-- An empty first line is not noticed when a text is trimmed. -/
theorem trim_unlines_nil_cons (ls : List (List Char)) : trim (unlines ([] :: ls)) = trim (unlines ls) := by
  cases ls with
  | nil => rfl
  | cons l rest =>
    rw [unlines_nil_cons (by simp)]
    exact @trim_append_left ['\n'] (by decide) _

theorem head?_unlines {l : List Char} (given : l ≠ []) (rest : List (List Char)) :
    (unlines (l :: rest)).head? = l.head? := by
  cases rest with
  | nil => rfl
  | cons next following =>
    rw [unlines, joinOn_cons '\n' l (by simp), List.head?_append_of_ne_nil l given]

theorem getLast?_unlines {l : List Char} (given : l ≠ []) (before : List (List Char)) :
    (unlines (before ++ [l])).getLast? = l.getLast? := by
  cases before with
  | nil => rfl
  | cons first more =>
    rw [unlines_append (by simp) (by simp), List.getLast?_append_of_ne_nil _ (by simp)]
    obtain ⟨c, rest, rfl⟩ := List.exists_cons_of_ne_nil given
    exact List.getLast?_cons_cons

/-- Lines without blanks at their ends make a text without blanks at its ends. -/
theorem trimmed_unlines {ls : List (List Char)} (each : ∀ l ∈ ls, Trimmed l ∧ l ≠ []) :
    Trimmed (unlines ls) := by
  constructor
  · intro c head
    cases ls with
    | nil => cases head
    | cons first rest =>
      obtain ⟨trimmed, given⟩ := each first List.mem_cons_self
      rw [head?_unlines given] at head
      exact trimmed.1 c head
  · intro c last
    cases ls using List.reverseRecOn with
    | nil => cases last
    | append_singleton before final =>
      obtain ⟨trimmed, given⟩ := each final (List.mem_append_right _ (List.mem_singleton_self final))
      rw [getLast?_unlines given] at last
      exact trimmed.2 c last

theorem mem_unlines {c : Char} {ls : List (List Char)} (member : c ∈ unlines ls) :
    c = '\n' ∨ ∃ l ∈ ls, c ∈ l := by
  induction ls with
  | nil => cases member
  | cons l rest ih =>
    cases rest with
    | nil => exact .inr ⟨l, List.mem_cons_self, member⟩
    | cons next following =>
      have parts : c ∈ l ∨ c = '\n' ∨ c ∈ unlines (next :: following) := by
        simpa [unlines, joinOn] using member
      rcases parts with here | break' | later
      · exact .inr ⟨l, List.mem_cons_self, here⟩
      · exact .inl break'
      · rcases ih later with break' | ⟨other, listed, inside⟩
        · exact .inl break'
        · exact .inr ⟨other, List.mem_cons_of_mem _ listed, inside⟩

theorem mem_of_mem_lines {cs l : List Char} (member : l ∈ lines cs) {c : Char} (inside : c ∈ l) : c ∈ cs := by
  rw [← unlines_lines cs]
  generalize lines cs = ls at member
  induction ls with
  | nil => cases member
  | cons first rest ih =>
    cases rest with
    | nil =>
      rw [List.mem_singleton.mp member] at inside
      exact inside
    | cons next following =>
      rw [unlines, joinOn_cons '\n' first (by simp), List.mem_append, List.mem_cons]
      rcases List.mem_cons.mp member with rfl | later
      · exact .inl inside
      · exact .inr (.inr (ih later))

/-- Strings joined with line feeds. -/
theorem toList_intercalate_lines (ls : List String) :
    ("\n".intercalate ls).toList = unlines (ls.map String.toList) := by
  induction ls with
  | nil => rfl
  | cons l rest ih =>
    cases rest with
    | nil => simp [unlines, joinOn]
    | cons next following =>
      rw [String.intercalate_cons_cons]
      have feed : "\n".toList = ['\n'] := rfl
      simp only [String.toList_append, ih, feed]
      simp [unlines, joinOn]

theorem map_toList_linesOf (s : String) : (linesOf s).map String.toList = lines s.toList := by
  have back : String.toList ∘ String.ofList = id := by
    funext cs
    simp
  rw [linesOf, List.map_map, back, List.map_id]

theorem unix_unlines {ls : List (List Char)} (each : ∀ l ∈ ls, Unbroken l) : '\r' ∉ unlines ls := by
  intro member
  rcases mem_unlines member with feed | ⟨l, listed, inside⟩
  · exact absurd feed (by decide)
  · exact (each l listed _ inside).2 rfl

/-- Without carriage returns there is nothing to change. -/
theorem unixLines_append {cs : List Char} (plain : '\r' ∉ cs) (rest : List Char) :
    unixLines (cs ++ rest) = cs ++ unixLines rest := by
  induction cs with
  | nil => rfl
  | cons c more ih =>
    have different : c ≠ '\r' := fun same => plain (same ▸ List.mem_cons_self)
    have remains := ih fun member => plain (List.mem_cons_of_mem _ member)
    rw [List.cons_append, unixLines, remains]
    · rfl
    · rintro more rfl
      exact absurd rfl different
    · exact different

/-- Line ends are read on each side of a seam, unless the seam cuts a line end in two. -/
theorem unixLines_append_of_apart {cs rest : List Char}
    (apart : cs.getLast? = some '\r' → rest.head? ≠ some '\n') :
    unixLines (cs ++ rest) = unixLines cs ++ unixLines rest := by
  induction cs using unixLines.induct with
  | case1 => rfl
  | case2 more ih =>
    have remains := ih fun last => apart (by cases more <;> simp_all)
    rw [List.cons_append, List.cons_append, unixLines, unixLines, remains, List.cons_append]
  | case3 more alone ih =>
    have remains := ih fun last => apart (by cases more <;> simp_all)
    rw [List.cons_append, unixLines, unixLines, remains, List.cons_append]
    · exact alone
    · intro tail same
      cases more with
      | nil => exact apart rfl (by rw [← List.nil_append rest, same]; rfl)
      | cons next following =>
        cases same
        exact alone _ rfl
  | case4 c more alone different ih =>
    have remains := ih fun last => apart (by cases more <;> simp_all)
    rw [List.cons_append, unixLines, unixLines, remains, List.cons_append]
    · exact alone
    · exact different
    · exact fun tail same => absurd same different
    · exact different

/-- Lines of any system end in line feeds alone. -/
theorem unix_unixLines (cs : List Char) : '\r' ∉ unixLines cs := by
  fun_induction unixLines cs with
  | case1 => simp
  | case2 rest ih => simpa using ih
  | case3 rest apart ih => simpa using ih
  | case4 c rest apart other ih =>
    rw [List.mem_cons, not_or]
    exact ⟨fun same => other same.symm, ih⟩

theorem unixLines_eq_self {cs : List Char} (plain : '\r' ∉ cs) : unixLines cs = cs := by
  simpa [unixLines] using unixLines_append plain []

private theorem unixLines_cons_of_shown {c : Char} (shown : isBlank c = false) (rest : List Char) :
    unixLines (c :: rest) = c :: unixLines rest := by
  have own : '\r' ∉ [c] := fun member => (@unbroken_of_shown [c] (by simpa using shown) _ member).2 rfl
  exact unixLines_append own rest

/-- Changing line ends puts no blank around a text. -/
theorem Trimmed.unixLines {cs : List Char} (trimmed : Trimmed cs) : Trimmed (unixLines cs) := by
  constructor
  · intro c head
    cases cs with
    | nil => cases head
    | cons first rest =>
      rw [unixLines_cons_of_shown (trimmed.1 first rfl)] at head
      exact trimmed.1 c head
  · intro c last
    cases cs using List.reverseRecOn with
    | nil => cases last
    | append_singleton before final =>
      have shown := trimmed.2 final List.getLast?_concat
      have own : Unbroken [final] := unbroken_of_shown (by simpa using shown)
      have feed : final ≠ '\n' := (own final List.mem_cons_self).1
      rw [unixLines_append_of_apart (by simpa using fun _ => feed),
        unixLines_eq_self fun member => (own _ member).2 rfl] at last
      rw [List.getLast?_concat] at last
      exact Option.some.inj last ▸ shown

/-- After a text without blanks around it, a line feed is a line end of its own. -/
theorem Trimmed.unixLines_append {cs : List Char} (trimmed : Trimmed cs) (rest : List Char) :
    Text.unixLines (cs ++ '\n' :: rest) = Text.unixLines cs ++ '\n' :: Text.unixLines rest := by
  rw [unixLines_append_of_apart fun last => absurd (trimmed.2 _ last) (by decide)]
  exact congrArg _ (@Text.unixLines_append ['\n'] (by decide) rest)

theorem trim_unixLines_cons {c : Char} (shown : isBlank c = false) (rest : List Char) :
    trim (unixLines (c :: rest)) = c :: trimEnd (unixLines rest) := by
  have start : trimStart (c :: unixLines rest) = c :: unixLines rest :=
    trimStart_eq_self (by simpa using shown)
  rw [unixLines_cons_of_shown shown, trim, start, trimEnd_cons_of_shown shown]

/-- Trimming leaves alone what stands before a text that shows. -/
theorem trim_unixLines_append {before : List Char} (plain : '\r' ∉ before)
    (starts : ∃ c, before.head? = some c ∧ isBlank c = false) {c : Char} (shown : isBlank c = false)
    (rest : List Char) :
    trim (unixLines (before ++ c :: rest)) = before ++ trim (unixLines (c :: rest)) := by
  obtain ⟨d, head, shows⟩ := starts
  obtain ⟨tail, rfl⟩ := List.head?_eq_some_iff.mp head
  rw [List.mem_cons, not_or] at plain
  have filled : allBlank (c :: unixLines rest) = false := by simp [allBlank, shown]
  rw [List.cons_append, trim_unixLines_cons shows, trim_unixLines_cons shown, unixLines_append plain.2,
    unixLines_cons_of_shown shown, trimEnd_append filled, trimEnd_cons_of_shown shown]
  rfl

/-- Text without line feeds stands at the start of the first line. -/
theorem lines_append_of_flat {cs : List Char} (flat : Flat cs) (rest : List Char) :
    ∃ first more, lines rest = first :: more ∧ lines (cs ++ rest) = (cs ++ first) :: more := by
  obtain ⟨first, more, same⟩ := List.exists_cons_of_ne_nil (lines_ne_nil rest)
  refine ⟨first, more, same, ?_⟩
  induction cs with
  | nil => exact same
  | cons c before ih =>
    have different : c ≠ '\n' := fun feed => flat (feed ▸ List.mem_cons_self)
    have begun := ih fun member => flat (List.mem_cons_of_mem _ member)
    unfold lines at begun ⊢
    rw [List.cons_append, splitOn, if_neg different, begun]
    rfl

/-- Where a text is put behind another, its first line goes on with the last one of the other. -/
theorem exists_lines_append (first second : List Char) :
    ∃ above last start below, lines first = above ++ [last] ∧ lines second = start :: below ∧
      lines (first ++ second) = above ++ (last ++ start) :: below := by
  obtain ⟨above, last, ends⟩ : ∃ above last, lines first = above ++ [last] :=
    ⟨_, _, (List.dropLast_append_getLast (lines_ne_nil first)).symm⟩
  have flat : Flat last := flat_of_mem_lines (ends ▸ List.mem_append_right above (List.mem_singleton_self last))
  obtain ⟨start, below, starts, behind⟩ := lines_append_of_flat flat second
  refine ⟨above, last, start, below, ends, starts, ?_⟩
  have whole : first = unlines (above ++ [last]) := by rw [← ends, unlines_lines]
  cases above with
  | nil => rw [whole]; exact behind
  | cons line more =>
    have kept : lines (unlines (line :: more)) = line :: more :=
      lines_unlines (by simp) fun l member => flat_of_mem_lines (ends ▸ List.mem_append_left [last] member)
    rw [whole, unlines_append (by simp) (by simp), List.append_assoc, List.cons_append, lines, splitOn_append,
      ← lines, ← lines, kept]
    exact congrArg (line :: more ++ ·) behind

end LiterateRuby.Text
