import LiterateRuby.Proofs.Literate.RoundTrip

/-! # Fences in the body of a method

Any line of a body may be a fence for the reader, also one that the writer did not put there. So a body
hides what comes after it if its fences do not close in pairs, a heading-like line of it is read as a
heading where the writer's fence was closed early, and a body that is one fenced block loses its fences.
`section_of_body` says for every body when none of this happens.
-/

namespace LiterateRuby.Literate

open Text (Trimmed)

/-! ## Headings among fences -/

private theorem isFence_of_looksLikeHeading {line : List Char} (looks : looksLikeHeading line = true) :
    isFence line = false := by
  cases line with
  | nil => cases looks
  | cons c rest =>
    have sign : c = '#' := by
      by_contra other
      rw [looksLikeHeading, headingParts?_of_head other] at looks
      cases looks
    subst sign
    exact isFence_of_head (by decide) (by decide) (by decide)

private theorem looksLikeHeading_of_heading? {line : List Char} {heading : Heading}
    (found : heading? line = some heading) : looksLikeHeading line = true := by
  obtain ⟨parts, split, -⟩ := Option.map_eq_some_iff.mp found
  rw [looksLikeHeading, split]
  rfl

private theorem exists_heading?_of_looksLikeHeading {line : List Char} (looks : looksLikeHeading line = true) :
    ∃ heading, heading? line = some heading := by
  obtain ⟨parts, split⟩ := Option.isSome_iff_exists.mp looks
  exact ⟨_, by rw [heading?, split, Option.map_some]⟩

/-- Each line that looks like a heading stands inside a fenced block; `fenced` says whether the lines
start inside one. -/
def Sheltered (fenced : Bool) (lines : List (List Char)) : Prop :=
  ∀ before line after, lines = before ++ line :: after → looksLikeHeading line = true →
    (fenced ^^ (before.countP isFence % 2 == 1)) = true

private theorem sheltered_nil (fenced : Bool) : Sheltered fenced [] := by
  intro before line after same
  simp at same

theorem sheltered_of_unlike {lines : List (List Char)}
    (unlike : ∀ line ∈ lines, looksLikeHeading line = false) (fenced : Bool) : Sheltered fenced lines := by
  rintro before line after rfl looks
  rw [unlike line (by simp)] at looks
  cases looks

private theorem sheltered_cons {fenced : Bool} {line : List Char} {rest : List (List Char)} :
    Sheltered fenced (line :: rest) ↔
      (looksLikeHeading line = true → fenced = true) ∧ Sheltered (fenced ^^ isFence line) rest := by
  constructor
  · intro sheltered
    refine ⟨fun looks => by simpa using sheltered [] line rest rfl looks, ?_⟩
    rintro before next after rfl looks
    rw [← odd_countP_cons]
    exact sheltered (line :: before) next after rfl looks
  · rintro ⟨first, later⟩ before next after same looks
    cases before with
    | nil =>
      obtain ⟨rfl, rfl⟩ := List.cons.inj same
      simpa using first looks
    | cons head before =>
      obtain ⟨rfl, rfl⟩ := List.cons.inj same
      rw [odd_countP_cons]
      exact later before next after rfl looks

private theorem sheltered_append {fenced : Bool} {first second : List (List Char)} :
    Sheltered fenced (first ++ second) ↔
      Sheltered fenced first ∧ Sheltered (fenced ^^ (first.countP isFence % 2 == 1)) second := by
  induction first generalizing fenced with
  | nil => simp [sheltered_nil]
  | cons line rest ih =>
    rw [List.cons_append, sheltered_cons, sheltered_cons, ih, odd_countP_cons, and_assoc]

private theorem sheltered_of_fence {line : List Char} (fence : isFence line = true) (fenced : Bool) :
    Sheltered fenced [line] := by
  refine sheltered_cons.mpr ⟨fun looks => ?_, sheltered_nil _⟩
  rw [isFence_of_looksLikeHeading looks] at fence
  cases fence

/-- Between two fences, the lines after which the first one is open. -/
theorem sheltered_block_iff {opening closing : List Char} {lines : List (List Char)}
    (opens : isFence opening = true) (closes : isFence closing = true) :
    Sheltered false (opening :: (lines ++ [closing])) ↔ Sheltered true lines := by
  have first : Sheltered false [opening] := sheltered_of_fence opens false
  rw [sheltered_cons, opens, Bool.false_xor, sheltered_append,
    and_iff_right (sheltered_cons.mp first).1, and_iff_left (sheltered_of_fence closes _)]

/-- Lines are read as they are exactly if each line that looks like a heading stands inside a fenced
block. -/
theorem scan_eq_contents_iff {fenced : Bool} {lines : List (List Char)} :
    scan fenced lines = lines.map .content ↔ Sheltered fenced lines := by
  induction lines generalizing fenced with
  | nil => exact iff_of_true rfl (sheltered_nil fenced)
  | cons line rest ih =>
    rw [sheltered_cons, List.map_cons]
    cases opens : isFence line with
    | true =>
      have unlike : looksLikeHeading line = true → fenced = true := by
        intro looks
        rw [isFence_of_looksLikeHeading looks] at opens
        cases opens
      rw [scan_of_fence opens, Bool.xor_true, List.cons_inj_right, ih]
      exact (and_iff_right unlike).symm
    | false =>
      rw [Bool.xor_false, ← ih]
      cases looks : looksLikeHeading line with
      | false =>
        have unheaded : headingParts? line = none := by simpa [looksLikeHeading] using looks
        rw [scan_of_content opens (.inr unheaded), List.cons_inj_right]
        simp
      | true =>
        cases fenced with
        | true =>
          rw [scan_of_content opens (.inl rfl), List.cons_inj_right]
          simp
        | false =>
          obtain ⟨heading, found⟩ := exists_heading?_of_looksLikeHeading looks
          rw [scan_of_heading opens found]
          simp

private theorem length_scan (fenced : Bool) (lines : List (List Char)) :
    (scan fenced lines).length = lines.length := by
  induction lines generalizing fenced with
  | nil => rfl
  | cons line rest ih =>
    rw [scan_cons]
    split_ifs
    · rw [List.length_cons, List.length_cons, ih]
    · split <;> rw [List.length_cons, List.length_cons, ih]

/-- Lines between two headings are all that the first one heads exactly if the lines that look like
headings are fenced and the fences close in pairs. -/
theorem scan_between_iff {opening closing : List Char} {title next : Heading}
    (opened : heading? opening = some title) (closed : heading? closing = some next)
    (lines : List (List Char)) :
    scan false (opening :: (lines ++ [[], closing])) =
        .heading title :: (lines.map .content ++ [.content [], .heading next]) ↔
      Sheltered false lines ∧ lines.countP isFence % 2 = 0 := by
  have plain := isFence_of_looksLikeHeading (looksLikeHeading_of_heading? closed)
  have split : scan false (lines ++ [[], closing]) =
      scan false lines ++ (.content [] :: scan (lines.countP isFence % 2 == 1) [closing]) := by
    rw [scan_append, scan_of_content (by decide) (.inr rfl), Bool.false_xor]
  have last : scan (lines.countP isFence % 2 == 1) [closing] = [.heading next] ↔
      lines.countP isFence % 2 = 0 := by
    rcases Nat.mod_two_eq_zero_or_one (lines.countP isFence) with even | odd
    · rw [even]
      exact iff_of_true (scan_of_heading plain closed []) rfl
    · have fenced : scan true [closing] = [.content closing] := scan_of_content plain (.inl rfl) []
      simp [odd, fenced]
  rw [scan_of_heading (isFence_of_looksLikeHeading (looksLikeHeading_of_heading? opened)) opened,
    List.cons_inj_right, split, ← scan_eq_contents_iff, ← last]
  constructor
  · intro same
    obtain ⟨begins, ends⟩ := List.append_inj same (by rw [length_scan, List.length_map])
    exact ⟨begins, List.cons.inj ends |>.2⟩
  · rintro ⟨begins, ends⟩
    rw [begins, ends]

/-! ## Bodies among headings -/

section Body

variable {settings : RenderSettings} {method : Method}

private theorem ne_empty_of_mem_lines {text : String} {line : List Char} (member : line ∈ Text.lines text.toList)
    (given : line ≠ []) : text ≠ "" := by
  rintro rfl
  exact given (List.mem_singleton.mp member)

private theorem ne_nil_of_looksLikeHeading {line : List Char} (looks : looksLikeHeading line = true) :
    line ≠ [] := by
  rintro rfl
  cases looks

/-- The lines of a body without anything like a heading. -/
theorem bodyLines_of_unlike (unlike : ∀ line ∈ Text.lines method.body.toList, looksLikeHeading line = false) :
    (bodyLines settings method).map String.toList =
      if method.body = "" then [] else Text.lines method.body.toList := by
  rw [bodyLines_eq, if_neg (c := (Text.lines method.body.toList).any looksLikeHeading = true)]
  rw [Bool.not_eq_true, List.any_eq_false]
  intro line member
  rw [unlike line member]
  decide

/-- The lines of a body with something like a heading. -/
theorem bodyLines_of_looking {line : List Char} (member : line ∈ Text.lines method.body.toList)
    (looks : looksLikeHeading line = true) :
    (bodyLines settings method).map String.toList =
      fencedLines settings (Text.lines method.body.toList) := by
  rw [bodyLines_eq, if_neg (ne_empty_of_mem_lines member (ne_nil_of_looksLikeHeading looks)),
    if_pos (List.any_eq_true.mpr ⟨line, member, looks⟩)]

/-- What is read between the lines of a body and the heading after it. -/
theorem scan_body_iff {opening closing : List Char} {title next : Heading}
    (opened : heading? opening = some title) (closed : heading? closing = some next) :
    scan false (opening :: ((bodyLines settings method).map String.toList ++ [[], closing])) =
        .heading title ::
          (((bodyLines settings method).map String.toList).map .content ++ [.content [], .heading next]) ↔
      Sheltered true (Text.lines method.body.toList) ∧
        (Text.lines method.body.toList).countP isFence % 2 = 0 := by
  rw [scan_between_iff opened closed]
  by_cases looking : ∃ line ∈ Text.lines method.body.toList, looksLikeHeading line = true
  · obtain ⟨line, member, looks⟩ := looking
    rw [bodyLines_of_looking member looks, fencedLines, sheltered_block_iff (isFence_fence _) isFence_closing,
      List.countP_cons_of_pos (isFence_fence _), List.countP_append, List.countP_singleton,
      if_pos isFence_closing, Nat.add_assoc, Nat.add_mod_right]
  · have unlike : ∀ line ∈ Text.lines method.body.toList, looksLikeHeading line = false := by simpa using looking
    rw [bodyLines_of_unlike unlike]
    split_ifs with empty
    · have single : Text.lines method.body.toList = [[]] := by rw [empty]; rfl
      rw [single]
      exact iff_of_true ⟨sheltered_nil false, rfl⟩ ⟨single ▸ sheltered_of_unlike unlike true, by decide⟩
    · exact and_congr_left' (iff_of_true (sheltered_of_unlike unlike false) (sheltered_of_unlike unlike true))

private theorem length_unlines_lt_block {opening : List Char} (inner : List (List Char)) (closing : List Char)
    (given : opening ≠ []) :
    (Text.unlines inner).length < (Text.unlines (opening :: (inner ++ [closing]))).length := by
  have positive : 0 < opening.length := List.length_pos_iff.mpr given
  rw [Text.unlines, Text.unlines, Text.joinOn_cons _ _ (by simp), List.length_append, List.length_cons]
  cases inner with
  | nil =>
    rw [Text.joinOn, List.length_nil]
    omega
  | cons line rest =>
    rw [Text.joinOn_append _ (by simp) (by simp), List.length_append]
    omega

/-- A body that is not just one fenced block keeps its lines, and only such a body does. -/
theorem unwrapFence_eq_self_iff {body : List Char} :
    unwrapFence body = body ↔ ¬OneBlock (Text.lines body) := by
  refine ⟨?_, unwrapFence_of_more⟩
  rintro same ⟨opening, inner, closing, block, opens, closes, plain⟩
  have given : opening ≠ [] := by
    rintro rfl
    cases opens
  have shorter := length_unlines_lt_block inner closing given
  have least := Text.length_trim_le (Text.unlines inner)
  rw [← block, Text.unlines_lines] at shorter
  rw [unwrapFence_of_block block opens closes plain] at same
  rw [same] at least
  omega

/-- When a body comes back from its lines. -/
theorem bodyOf_bodyLines_iff (trimmed : Trimmed method.body.toList)
    (language : ∀ c ∈ settings.fenceLanguage.toList, Text.isBlank c = false) :
    bodyOf ((bodyLines settings method).map String.toList) = method.body ↔
      if ∃ line ∈ Text.lines method.body.toList, looksLikeHeading line = true then
        ∀ line ∈ Text.lines method.body.toList, isFence line = false
      else ¬OneBlock (Text.lines method.body.toList) := by
  have whole (cs : List Char) : String.ofList cs = method.body ↔ cs = method.body.toList := by
    rw [← String.toList_inj, String.toList_ofList]
  unfold bodyOf
  rw [whole]
  split_ifs with looking
  · obtain ⟨line, member, looks⟩ := looking
    have lines := lines_fencedLines language fun line => @Text.flat_of_mem_lines method.body.toList line
    rw [bodyLines_of_looking member looks, (trimmed_fencedLines language).trim_eq,
      ← @oneBlock_fencedLines_iff settings]
    refine ⟨fun same => ?_, fun block => ?_⟩
    · by_contra more
      -- the fences stay, and the text is longer than the body
      rw [unwrapFence_of_more (by rwa [lines])] at same
      have opens : Render.fence.toList ++ settings.fenceLanguage.toList ≠ [] := by simp [Render.fence]
      have longer := length_unlines_lt_block (Text.lines method.body.toList) Render.fence.toList opens
      rw [fencedLines] at same
      rw [same, Text.unlines_lines] at longer
      exact lt_irrefl _ longer
    · rw [unwrapFence_of_block lines (isFence_fence _) isFence_closing (oneBlock_fencedLines_iff.mp block),
        Text.unlines_lines, trimmed.trim_eq]
  · have unlike : ∀ line ∈ Text.lines method.body.toList, looksLikeHeading line = false := by simpa using looking
    rw [bodyLines_of_unlike unlike]
    split_ifs with empty
    · rw [empty]
      refine iff_of_true rfl ?_
      rintro ⟨opening, inner, closing, same, -⟩
      have short : (Text.lines "".toList).length = 1 := rfl
      rw [same, List.length_cons, List.length_append, List.length_singleton] at short
      omega
    · rw [Text.unlines_lines, trimmed.trim_eq, unwrapFence_eq_self_iff]

/-- What is read from the section of a method, between its heading and the next one. All that stands there
is read as its body, and the heading after it as a heading, exactly if each line of the body that looks
like a heading has an even number of fences before it and the body has an even number of fences in all. The
body comes back exactly if it has fences or lines that look like headings, not both, and is not just one
fenced block. -/
theorem section_of_body (checked : settings.checked = .ok settings) (trimmed : Trimmed method.body.toList)
    {opening closing : List Char} {title next : Heading} (opened : heading? opening = some title)
    (closed : heading? closing = some next) :
    (scan false (opening :: ((bodyLines settings method).map String.toList ++ [[], closing])) =
          .heading title ::
            (((bodyLines settings method).map String.toList).map .content ++ [.content [], .heading next]) ↔
        Sheltered true (Text.lines method.body.toList) ∧
          (Text.lines method.body.toList).countP isFence % 2 = 0) ∧
      (bodyOf ((bodyLines settings method).map String.toList ++ [[]]) = method.body ↔
        if ∃ line ∈ Text.lines method.body.toList, looksLikeHeading line = true then
          ∀ line ∈ Text.lines method.body.toList, isFence line = false
        else ¬OneBlock (Text.lines method.body.toList)) := by
  refine ⟨scan_body_iff opened closed, ?_⟩
  rw [← bodyOf_bodyLines_iff trimmed (fenceLanguage_of_checked checked), bodyOf, bodyOf,
    Text.trim_unlines_concat_nil]

end Body

/-- A method whose body begins with tildes, as an expression may, and goes on with a comment. -/
def tildes : Method where
  name := "x"
  parameters := []
  body := "~~~1\n# note\n2"
  visibility := .pub
  binding := .onInstance
  prose := none

/-- The fence that the writer puts before the body is closed by the tildes, so that the comment is read as
a heading and the heading after the body is not; were it read, it would come with its fences. -/
theorem section_of_body_of_tildes :
    scan false ("## x".toList :: ((bodyLines .default tildes).map String.toList ++ [[], "## y".toList])) ≠
        .heading ⟨2, "x".toList⟩ ::
          (((bodyLines .default tildes).map String.toList).map .content ++
            [.content [], .heading ⟨2, "y".toList⟩]) ∧
      bodyOf ((bodyLines .default tildes).map String.toList ++ [[]]) ≠ tildes.body := by
  have trimmed : Trimmed tildes.body.toList := by
    constructor <;> rintro c ⟨⟩ <;> decide
  have checked : RenderSettings.default.checked = .ok .default := by decide
  have opened : heading? "## x".toList = some ⟨2, "x".toList⟩ := by decide +kernel
  have closed : heading? "## y".toList = some ⟨2, "y".toList⟩ := by decide +kernel
  obtain ⟨read, kept⟩ := section_of_body checked trimmed opened closed
  have odd : (Text.lines tildes.body.toList).countP isFence % 2 = 1 := by decide +kernel
  have looking : ∃ line ∈ Text.lines tildes.body.toList, looksLikeHeading line = true := by decide +kernel
  have fence : ∃ line ∈ Text.lines tildes.body.toList, isFence line = true := by decide +kernel
  refine ⟨fun same => ?_, fun same => ?_⟩
  · have even := (read.mp same).2
    omega
  · have plain := kept.mp same
    rw [if_pos looking] at plain
    obtain ⟨line, member, opens⟩ := fence
    rw [plain line member] at opens
    cases opens

end LiterateRuby.Literate
