import LiterateRuby.Literate.Writer
import LiterateRuby.Proofs.Literate.Calls
import LiterateRuby.Proofs.Literate.Heading
import LiterateRuby.Proofs.Text.Lines

/-! # Sections are read as they are written

A heading is read where number signs and a title are written, and the lines of a body are read as they
are: `Inert` lines hold no heading and close the fences that they open. `bodyOf_bodyLines` says that a
body comes back from its lines, with or without the fences that protect it.
-/

namespace LiterateRuby.Literate

open Text (isBlank Trimmed Flat)

/-! ## Headings and fences -/

theorem isFence_of_head {c : Char} {rest : List Char} (shown : isBlank c = false)
    (backtick : c ≠ Char.ofNat 0x60) (tilde : c ≠ '~') : isFence (c :: rest) = false := by
  have start : Text.trimStart (c :: rest) = c :: rest := by
    rw [Text.trimStart, List.dropWhile_cons_of_neg (by simp [shown])]
  have first : Text.after? backtickFence (c :: rest) = none := by
    rw [backtickFence, List.replicate_succ, Text.after?, if_neg (Ne.symm backtick)]
  have second : Text.after? tildeFence (c :: rest) = none := by
    rw [tildeFence, List.replicate_succ, Text.after?, if_neg (Ne.symm tilde)]
  simp [isFence, start, first, second]

theorem isFence_signs {level : Nat} (least : 1 ≤ level) (title : List Char) :
    isFence (List.replicate level '#' ++ ' ' :: title) = false := by
  obtain ⟨fewer, rfl⟩ := Nat.exists_eq_add_of_le' least
  rw [List.replicate_succ, List.cons_append]
  exact isFence_of_head (by decide) (by decide) (by decide)

theorem scan_cons (fenced : Bool) (line : List Char) (rest : List (List Char)) :
    scan fenced (line :: rest) =
      if isFence line then .content line :: scan (!fenced) rest
      else
        match fenced, heading? line with
        | false, some heading => .heading heading :: scan fenced rest
        | _, _ => .content line :: scan fenced rest := rfl

theorem scan_of_fence {line : List Char} (fence : isFence line = true) (fenced : Bool)
    (rest : List (List Char)) : scan fenced (line :: rest) = .content line :: scan (!fenced) rest := by
  rw [scan_cons, if_pos fence]

theorem scan_of_heading {line : List Char} {heading : Heading} (plain : isFence line = false)
    (found : heading? line = some heading) (rest : List (List Char)) :
    scan false (line :: rest) = .heading heading :: scan false rest := by
  rw [scan_cons, if_neg (by simp [plain]), found]

/-- A line is content if it is fenced or no heading. -/
theorem scan_of_content {line : List Char} (plain : isFence line = false) {fenced : Bool}
    (content : fenced = true ∨ headingParts? line = none) (rest : List (List Char)) :
    scan fenced (line :: rest) = .content line :: scan fenced rest := by
  rw [scan_cons, if_neg (by simp [plain])]
  rcases content with rfl | unheaded
  · rfl
  · have heads : heading? line = none := by rw [heading?, unheaded, Option.map_none]
    rw [heads]
    cases fenced <;> rfl

/-! ## Inert lines -/

/-- Lines that hold no heading and close the fences that they open. -/
def Inert (lines : List (List Char)) : Prop :=
  ∀ rest, scan false (lines ++ rest) = lines.map .content ++ scan false rest

theorem inert_nil : Inert [] := fun _ => rfl

theorem Inert.append {first second : List (List Char)} (begins : Inert first) (ends : Inert second) :
    Inert (first ++ second) := by
  intro rest
  rw [List.append_assoc, begins, ends, List.map_append, List.append_assoc]

private theorem inert_singleton {line : List Char} (plain : isFence line = false)
    (unheaded : headingParts? line = none) : Inert [line] :=
  fun rest => scan_of_content plain (.inr unheaded) rest

theorem inert_of_each {lines : List (List Char)} (each : ∀ line ∈ lines, Inert [line]) : Inert lines := by
  induction lines with
  | nil => exact inert_nil
  | cons line rest ih =>
    have first := each line List.mem_cons_self
    have later := ih fun other member => each other (List.mem_cons_of_mem _ member)
    have both := first.append later
    rwa [List.singleton_append] at both

/-- A line that starts with neither a blank nor a sign of a heading or a fence. -/
theorem inert_of_head {c : Char} {rest : List Char} (shown : isBlank c = false)
    (backtick : c ≠ Char.ofNat 0x60) (tilde : c ≠ '~') (sign : c ≠ '#') : Inert [c :: rest] :=
  inert_singleton (isFence_of_head shown backtick tilde) (headingParts?_of_head sign)

theorem inert_blank : Inert [[]] := inert_singleton (by decide) rfl

/-- A fence turns the side on which the lines after it are. -/
theorem odd_countP_cons (fenced : Bool) (line : List Char) (rest : List (List Char)) :
    (fenced ^^ ((line :: rest).countP isFence % 2 == 1)) =
      ((fenced ^^ isFence line) ^^ (rest.countP isFence % 2 == 1)) := by
  cases opens : isFence line with
  | true =>
    rw [List.countP_cons_of_pos opens]
    rcases Nat.mod_two_eq_zero_or_one (rest.countP isFence) with even | odd
    · have next : (rest.countP isFence + 1) % 2 = 1 := by omega
      simp [even, next]
    · have next : (rest.countP isFence + 1) % 2 = 0 := by omega
      simp [odd, next]
  | false =>
    rw [List.countP_cons_of_neg (by simp [opens]), Bool.xor_false]

/-- Each fence changes whether the lines after it are fenced. -/
theorem scan_append (fenced : Bool) (first second : List (List Char)) :
    scan fenced (first ++ second) =
      scan fenced first ++ scan (fenced ^^ (first.countP isFence % 2 == 1)) second := by
  induction first generalizing fenced with
  | nil => simp [scan]
  | cons line rest ih =>
    rw [List.cons_append, scan_cons, scan_cons, odd_countP_cons]
    cases isFence line with
    | true => rw [if_pos rfl, if_pos rfl, ih, List.cons_append, Bool.xor_true]
    | false =>
      rw [if_neg (by simp), if_neg (by simp), ih, Bool.xor_false]
      split <;> rw [List.cons_append]

/-- Without headings, lines are read as they are, and each fence changes whether the lines after it are
fenced. -/
theorem scan_of_no_heading {lines : List (List Char)}
    (unheaded : ∀ line ∈ lines, headingParts? line = none) (fenced : Bool) (rest : List (List Char)) :
    scan fenced (lines ++ rest) =
      lines.map .content ++ scan (fenced ^^ (lines.countP isFence % 2 == 1)) rest := by
  have all (fenced : Bool) : scan fenced lines = lines.map .content := by
    induction lines generalizing fenced with
    | nil => rfl
    | cons line more ih =>
      have later := ih fun other member => unheaded other (List.mem_cons_of_mem _ member)
      cases opens : isFence line with
      | true => rw [scan_of_fence opens, later, List.map_cons]
      | false => rw [scan_of_content opens (.inr (unheaded line List.mem_cons_self)), later, List.map_cons]
  rw [scan_append, all]

/-- Inside a fenced block lines are read as they are. -/
theorem scan_fenced {lines : List (List Char)} (plain : ∀ line ∈ lines, isFence line = false)
    (rest : List (List Char)) : scan true (lines ++ rest) = lines.map .content ++ scan true rest := by
  induction lines with
  | nil => rfl
  | cons line more ih =>
    have later := ih fun other member => plain other (List.mem_cons_of_mem _ member)
    rw [List.cons_append, scan_of_content (plain line List.mem_cons_self) (.inl rfl), later]
    rfl

/-- A block between two fences is inert. -/
theorem inert_block {opening closing : List Char} {lines : List (List Char)}
    (opens : isFence opening = true) (closes : isFence closing = true)
    (plain : ∀ line ∈ lines, isFence line = false) : Inert (opening :: lines ++ [closing]) := by
  intro rest
  rw [List.cons_append, List.cons_append, scan_of_fence opens, Bool.not_false, List.append_assoc,
    scan_fenced plain, List.singleton_append, scan_of_fence closes]
  simp

/-! ## Bodies -/

/-- Lines that are one fenced block. -/
def OneBlock (lines : List (List Char)) : Prop :=
  ∃ opening inner closing, lines = opening :: (inner ++ [closing]) ∧ isFence opening = true ∧
    isFence closing = true ∧ ∀ line ∈ inner, isFence line = false

/-- A body that the notation can hold: with lines that look like headings or with fences that it closes,
not with both, and not just one fenced block. -/
structure PlainBody (body : String) : Prop where
  trimmed : Trimmed body.toList
  unix : '\r' ∉ body.toList
  lines : ((∀ line ∈ Text.lines body.toList, looksLikeHeading line = false) ∧
      (Text.lines body.toList).countP isFence % 2 = 0 ∧ ¬OneBlock (Text.lines body.toList)) ∨
    ((∃ line ∈ Text.lines body.toList, looksLikeHeading line = true) ∧
      ∀ line ∈ Text.lines body.toList, isFence line = false)

theorem unwrapFence_of_more {body : List Char} (more : ¬OneBlock (Text.lines body)) :
    unwrapFence body = body := by
  unfold unwrapFence
  split
  · next first second rest same =>
    dsimp only
    split
    · next block =>
      simp only [Bool.and_eq_true, Bool.not_eq_true', List.any_eq_false] at block
      obtain ⟨⟨opens, ends⟩, plain⟩ := block
      refine absurd ⟨first, (second :: rest).dropLast, (second :: rest).getLast (by simp), ?_, opens, ?_, ?_⟩ more
      · rw [List.dropLast_append_getLast, same]
      · rwa [List.getLast?_eq_some_getLast (by simp)] at ends
      · intro line member
        simpa using plain line member
    · rfl
  · rfl

theorem unwrapFence_of_block {opening closing : List Char} {inner : List (List Char)} {body : List Char}
    (same : Text.lines body = opening :: (inner ++ [closing])) (opens : isFence opening = true)
    (closes : isFence closing = true) (plain : ∀ line ∈ inner, isFence line = false) :
    unwrapFence body = Text.trim (Text.unlines inner) := by
  obtain ⟨second, rest, more⟩ := List.exists_cons_of_ne_nil (List.append_ne_nil_of_right_ne_nil inner
    (List.cons_ne_nil closing []))
  have unfenced : inner.any isFence = false := by
    rw [List.any_eq_false]
    intro line member
    simp [plain line member]
  unfold unwrapFence
  rw [same, more]
  dsimp only
  rw [← more, List.dropLast_concat, List.getLast?_concat, if_pos (by simp [opens, closes, unfenced])]

private theorem trimmed_block {opening closing : List Char} {inner : List (List Char)}
    (begins : Trimmed opening) (ends : Trimmed closing) (first : opening ≠ []) (last : closing ≠ []) :
    Trimmed (Text.unlines (opening :: (inner ++ [closing]))) := by
  constructor
  · rw [Text.head?_unlines first]
    exact begins.1
  · rw [← List.cons_append, Text.getLast?_unlines last]
    exact ends.2

theorem isFence_fence (language : List Char) : isFence (Render.fence.toList ++ language) = true := by
  have start : Text.trimStart (Render.fence.toList ++ language) = backtickFence ++ language :=
    Text.trimStart_eq_self (by
      rintro c ⟨⟩
      decide)
  unfold isFence
  dsimp only
  rw [start, Text.after?_append]
  rfl

/-- Settings that break no rule have a word without blanks after a fence. -/
theorem fenceLanguage_of_checked {settings : RenderSettings} (checked : settings.checked = .ok settings) :
    ∀ c ∈ settings.fenceLanguage.toList, isBlank c = false := by
  unfold RenderSettings.checked at checked
  split_ifs at checked with _ _ language
  intro c member
  by_contra blank
  apply language
  rw [List.any_eq_true]
  exact ⟨c, member, by simp [blank]⟩

/-- Settings that break no rule indent within a line and with blanks alone. -/
theorem indent_of_checked {settings : RenderSettings} (checked : settings.checked = .ok settings) :
    Text.allBlank settings.indent.toList = true ∧ Flat settings.indent.toList := by
  unfold RenderSettings.checked at checked
  split_ifs at checked with _ signs _
  have each : ∀ c ∈ settings.indent.toList, c = ' ' ∨ c = '\t' := by
    intro c member
    by_contra other
    exact signs (List.any_eq_true.mpr ⟨c, member, by simpa using other⟩)
  constructor
  · rw [Text.allBlank, List.all_eq_true]
    intro c member
    rcases each c member with rfl | rfl <;> decide
  · intro feed
    rcases each _ feed with same | same <;> exact absurd same (by decide)

section Fenced

variable {settings : RenderSettings} {lines : List (List Char)}

theorem isFence_closing : isFence Render.fence.toList = true := by
  have closes := isFence_fence []
  rwa [List.append_nil] at closes

/-- Lines between the fences that the writer puts around them. -/
def fencedLines (settings : RenderSettings) (lines : List (List Char)) : List (List Char) :=
  (Render.fence.toList ++ settings.fenceLanguage.toList) :: (lines ++ [Render.fence.toList])

/-- Lines that the writer fenced are found again exactly if no fence is among them. -/
theorem oneBlock_fencedLines_iff {lines : List (List Char)} :
    OneBlock (fencedLines settings lines) ↔ ∀ line ∈ lines, isFence line = false := by
  constructor
  · rintro ⟨opening, inner, closing, same, -, -, plain⟩
    obtain ⟨-, rest⟩ := List.cons.inj same
    rwa [(List.append_inj' rest rfl).1]
  · exact fun plain => ⟨_, lines, _, rfl, isFence_fence _, isFence_closing, plain⟩

private theorem shown_opening (language : ∀ c ∈ settings.fenceLanguage.toList, isBlank c = false) :
    ∀ c ∈ Render.fence.toList ++ settings.fenceLanguage.toList, isBlank c = false := by
  intro c member
  rcases List.mem_append.mp member with sign | word
  · exact @Text.shown_of_all Render.fence.toList (by decide) c sign
  · exact language c word

theorem trimmed_fencedLines (language : ∀ c ∈ settings.fenceLanguage.toList, isBlank c = false) :
    Trimmed (Text.unlines (fencedLines settings lines)) :=
  trimmed_block (Text.trimmed_of_shown (shown_opening language))
    (Text.trimmed_of_shown (Text.shown_of_all (by decide))) (by simp [Render.fence]) (by simp [Render.fence])

theorem flat_fencedLines (language : ∀ c ∈ settings.fenceLanguage.toList, isBlank c = false)
    (flat : ∀ line ∈ lines, Flat line) : ∀ line ∈ fencedLines settings lines, Flat line := by
  intro line member
  rcases List.mem_cons.mp member with rfl | inside
  · exact (Text.unbroken_of_shown (shown_opening language)).flat
  · rcases List.mem_append.mp inside with inner | closing
    · exact flat line inner
    · rw [List.mem_singleton.mp closing]
      exact (Text.unbroken_of_shown (Text.shown_of_all (by decide))).flat

theorem lines_fencedLines (language : ∀ c ∈ settings.fenceLanguage.toList, isBlank c = false)
    (flat : ∀ line ∈ lines, Flat line) :
    Text.lines (Text.unlines (fencedLines settings lines)) = fencedLines settings lines :=
  Text.lines_unlines (by simp [fencedLines]) (flat_fencedLines language flat)

end Fenced

/-- The lines of a body as they are written. -/
theorem bodyLines_eq (settings : RenderSettings) (method : Method) :
    (bodyLines settings method).map String.toList =
      if method.body = "" then []
      else if (Text.lines method.body.toList).any looksLikeHeading then
        fencedLines settings (Text.lines method.body.toList)
      else Text.lines method.body.toList := by
  have looks : (Text.linesOf method.body).any (fun line => looksLikeHeading line.toList) =
      (Text.lines method.body.toList).any looksLikeHeading := by
    rw [← Text.map_toList_linesOf, List.any_map]
    rfl
  unfold bodyLines
  dsimp only
  rw [looks]
  split_ifs
  · rfl
  · rw [List.map_append, List.map_cons, Text.map_toList_linesOf, String.toList_append]
    rfl
  · exact Text.map_toList_linesOf method.body

theorem PlainBody.inert {settings : RenderSettings} {method : Method} (plain : PlainBody method.body) :
    Inert ((bodyLines settings method).map String.toList) := by
  rw [bodyLines_eq]
  split_ifs with empty looks
  · exact inert_nil
  · rcases plain.lines with ⟨unlike, _, _⟩ | ⟨_, open'⟩
    · obtain ⟨line, member, heads⟩ := List.any_eq_true.mp looks
      rw [unlike line member] at heads
      cases heads
    · exact inert_block (isFence_fence _) isFence_closing open'
  · rcases plain.lines with ⟨unlike, even, _⟩ | ⟨⟨line, member, heads⟩, _⟩
    · have quiet : ∀ line ∈ Text.lines method.body.toList, headingParts? line = none := by
        intro line member
        simpa [looksLikeHeading] using unlike line member
      intro rest
      rw [scan_of_no_heading quiet, even]
      rfl
    · exact absurd (List.any_eq_true.mpr ⟨line, member, heads⟩) looks

/-- A body comes back from its lines. -/
theorem bodyOf_bodyLines {settings : RenderSettings} {method : Method} (plain : PlainBody method.body)
    (language : ∀ c ∈ settings.fenceLanguage.toList, isBlank c = false) :
    bodyOf ((bodyLines settings method).map String.toList) = method.body := by
  unfold bodyOf
  rw [bodyLines_eq]
  split_ifs with empty looks
  · rw [empty]
    rfl
  · rcases plain.lines with ⟨unlike, _, _⟩ | ⟨_, open'⟩
    · obtain ⟨line, member, heads⟩ := List.any_eq_true.mp looks
      rw [unlike line member] at heads
      cases heads
    · have block := lines_fencedLines language fun line => @Text.flat_of_mem_lines method.body.toList line
      rw [(trimmed_fencedLines language).trim_eq,
        unwrapFence_of_block block (isFence_fence _) isFence_closing open', Text.unlines_lines,
        plain.trimmed.trim_eq, String.ofList_toList]
  · rcases plain.lines with ⟨_, _, more⟩ | ⟨⟨line, member, heads⟩, _⟩
    · rw [Text.unlines_lines, plain.trimmed.trim_eq, unwrapFence_of_more more, String.ofList_toList]
    · exact absurd (List.any_eq_true.mpr ⟨line, member, heads⟩) looks

end LiterateRuby.Literate
