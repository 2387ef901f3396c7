import LiterateRuby.Literate.Title
import LiterateRuby.Proofs.Text.Trim
import Mathlib.Data.List.Forall2

/-! # Splitting at the commas outside brackets and quotes

A text is whole if it closes what it opens and has no comma outside brackets and quotes. A list is cut into texts
that have no such comma, and of these only the last may leave something open (`parts_splitCommas`): what is open at a
comma is not cut there. Texts with these properties, joined again, are cut in the same places (`splitParameters_join`).
No bracket and no quote is blank, so that blanks around a text change nothing of this (`scannedAlike_trim`).
-/

namespace LiterateRuby.Literate

open Text (isWord isBlank Trimmed)

def WordText (s : String) : Prop := ∀ c ∈ s.toList, isWord c = true

instance (s : String) : Decidable (WordText s) := decidable_of_iff (s.toList.all isWord = true) List.all_eq_true

theorem WordText.trimmed {s : String} (word : WordText s) : Trimmed s.toList :=
  Text.trimmed_of_shown fun c member => Text.isBlank_of_isWord (word c member)

theorem ne_of_isWord {c d : Char} (word : isWord c = true) (other : isWord d = false) : c ≠ d := by
  rintro rfl
  rw [word] at other
  cases other

/-! ## Texts that a list holds -/

/-- A text that closes all that is open, without a comma outside brackets and quotes. -/
def Whole : Nesting → List Char → Prop
  | nesting, [] => nesting = {}
  | nesting, c :: rest => ¬(c = ',' ∧ nesting.isClosed = true) ∧ Whole (nesting.step c) rest

instance decidableWhole : (nesting : Nesting) → (cs : List Char) → Decidable (Whole nesting cs)
  | nesting, [] => inferInstanceAs (Decidable (nesting = {}))
  | nesting, c :: rest =>
    have := decidableWhole (nesting.step c) rest
    inferInstanceAs (Decidable (¬(c = ',' ∧ nesting.isClosed = true) ∧ Whole (nesting.step c) rest))

/-- A text without a comma outside brackets and quotes. It may leave something open. -/
def Uncut : Nesting → List Char → Prop
  | _, [] => True
  | nesting, c :: rest => ¬(c = ',' ∧ nesting.isClosed = true) ∧ Uncut (nesting.step c) rest

private theorem whole_iff {nesting : Nesting} {cs : List Char} :
    Whole nesting cs ↔ Uncut nesting cs ∧ cs.foldl Nesting.step nesting = {} := by
  induction cs generalizing nesting with
  | nil => simp [Whole, Uncut]
  | cons c rest ih => rw [Whole, Uncut, ih, List.foldl_cons, and_assoc]

private theorem Whole.uncut {nesting : Nesting} {cs : List Char} (whole : Whole nesting cs) : Uncut nesting cs :=
  (whole_iff.mp whole).1

private theorem uncut_append {nesting : Nesting} {first second : List Char} :
    Uncut nesting (first ++ second) ↔ Uncut nesting first ∧ Uncut (first.foldl Nesting.step nesting) second := by
  induction first generalizing nesting with
  | nil => simp [Uncut]
  | cons c rest ih => rw [List.cons_append, Uncut, Uncut, ih, List.foldl_cons, and_assoc]

/-- Two texts that cut, open and close alike. -/
structure ScannedAlike (first second : List Char) : Prop where
  uncut : Uncut {} first ↔ Uncut {} second
  left : first.foldl Nesting.step {} = second.foldl Nesting.step {}

theorem ScannedAlike.refl (cs : List Char) : ScannedAlike cs cs := ⟨Iff.rfl, rfl⟩

theorem ScannedAlike.symm {first second : List Char} (alike : ScannedAlike first second) :
    ScannedAlike second first :=
  ⟨alike.uncut.symm, alike.left.symm⟩

theorem ScannedAlike.trans {first second third : List Char} (alike : ScannedAlike first second)
    (more : ScannedAlike second third) : ScannedAlike first third :=
  ⟨alike.uncut.trans more.uncut, alike.left.trans more.left⟩

private theorem ScannedAlike.whole_iff {first second : List Char} (alike : ScannedAlike first second) :
    Whole {} first ↔ Whole {} second := by
  rw [Literate.whole_iff, Literate.whole_iff, alike.uncut, alike.left]

/-- What is put before a whole text changes nothing. -/
theorem Whole.scannedAlike {first : List Char} (whole : Whole {} first) (second : List Char) :
    ScannedAlike (first ++ second) second := by
  obtain ⟨uncut, closed⟩ := Literate.whole_iff.mp whole
  refine ⟨?_, ?_⟩
  · rw [uncut_append, closed, and_iff_right uncut]
  · rw [List.foldl_append, closed]

/-! ## Characters that neither open nor close -/

/-- A character that neither opens nor separates anything. -/
def Neutral (c : Char) : Prop := c ≠ '"' ∧ c ≠ '\'' ∧ c ≠ ',' ∧ closing? c = none

private theorem Neutral.step {c : Char} (neutral : Neutral c) : Nesting.step {} c = {} := by
  obtain ⟨double, single, _, opens⟩ := neutral
  simp [Nesting.step, double, single, opens]

private theorem closing?_eq_none {c : Char} (round : c ≠ '(') (square : c ≠ '[') (curly : c ≠ '\x7b') :
    closing? c = none := by
  unfold closing?
  split
  · contradiction
  · contradiction
  · contradiction
  · rfl

theorem neutral_of_isWord {c : Char} (word : isWord c = true) : Neutral c := by
  have opens := closing?_eq_none (ne_of_isWord word (d := '(') (by decide +kernel))
    (ne_of_isWord word (d := '[') (by decide +kernel)) (ne_of_isWord word (d := '\x7b') (by decide +kernel))
  exact ⟨ne_of_isWord word (by decide +kernel), ne_of_isWord word (by decide +kernel),
    ne_of_isWord word (by decide +kernel), opens⟩

theorem neutral_of_isBlank {c : Char} (blank : isBlank c = true) : Neutral c := by
  have apart {d : Char} (shown : isBlank d = false) : c ≠ d := by
    rintro rfl
    rw [blank] at shown
    cases shown
  exact ⟨apart (by decide), apart (by decide), apart (by decide),
    closing?_eq_none (apart (by decide)) (apart (by decide)) (apart (by decide))⟩

theorem whole_of_neutral {cs : List Char} (neutral : ∀ c ∈ cs, Neutral c) : Whole {} cs := by
  induction cs with
  | nil => rfl
  | cons c rest ih =>
    have here := neutral c List.mem_cons_self
    rw [Whole, here.step]
    exact ⟨fun comma => here.2.2.1 comma.1, ih fun d member => neutral d (List.mem_cons_of_mem _ member)⟩

theorem Whole.append {first second : List Char} (neutral : ∀ c ∈ first, Neutral c)
    (whole : Whole {} second) : Whole {} (first ++ second) :=
  ((whole_of_neutral neutral).scannedAlike second).whole_iff.mpr whole

theorem WordText.whole {s : String} (word : WordText s) : Whole {} s.toList :=
  whole_of_neutral fun c member => neutral_of_isWord (word c member)

/-! ## Blanks -/

/-- Nothing that is open is closed by a blank. -/
structure Nesting.Shown (nesting : Nesting) : Prop where
  closers : ∀ c ∈ nesting.closers, isBlank c = false
  quote : ∀ c ∈ nesting.quote, isBlank c = false

private theorem shown_of_closing? {c closer : Char} (closes : closing? c = some closer) :
    isBlank closer = false := by
  unfold closing? at closes
  split at closes
  · cases closes
    decide
  · cases closes
    decide
  · cases closes
    decide
  · cases closes

private theorem Nesting.Shown.step {nesting : Nesting} (shown : nesting.Shown) (c : Char) :
    (nesting.step c).Shown := by
  fun_cases Nesting.step nesting c with
  | case1 => exact ⟨shown.closers, by simp⟩
  | case2 => exact shown
  | case3 outside opens =>
    refine ⟨shown.closers, fun d same => ?_⟩
    cases same
    rcases opens with rfl | rfl <;> decide
  | case4 outside opens closer closes =>
    refine ⟨fun d member => ?_, shown.quote⟩
    rcases List.mem_cons.mp member with rfl | inner
    · exact shown_of_closing? closes
    · exact shown.closers d inner
  | case5 => exact ⟨fun d member => shown.closers d (List.mem_of_mem_drop member), shown.quote⟩
  | case6 => exact shown

private theorem Nesting.Shown.foldl {nesting : Nesting} (shown : nesting.Shown) (cs : List Char) :
    (cs.foldl Nesting.step nesting).Shown := by
  induction cs generalizing nesting with
  | nil => exact shown
  | cons c rest ih => exact ih (shown.step c)

private theorem Nesting.Shown.step_of_blank {nesting : Nesting} (shown : nesting.Shown) {c : Char}
    (blank : isBlank c = true) :
    nesting.step c = nesting := by
  obtain ⟨double, single, _, opens⟩ := neutral_of_isBlank blank
  have apart {d : Char} (other : isBlank d = false) : d ≠ c := by
    rintro rfl
    rw [blank] at other
    cases other
  unfold Nesting.step
  cases quote : nesting.quote with
  | some mark => exact if_neg (apart (shown.quote mark quote)).symm
  | none =>
    have outer : nesting.closers.head? ≠ some c := fun first =>
      apart (shown.closers c (List.mem_of_head? first)) rfl
    simp [double, single, opens, outer]

private theorem Nesting.Shown.blanks {nesting : Nesting} (shown : nesting.Shown) {cs : List Char}
    (blank : Text.allBlank cs = true) : Uncut nesting cs ∧ cs.foldl Nesting.step nesting = nesting := by
  induction cs with
  | nil => exact ⟨trivial, rfl⟩
  | cons c rest ih =>
    obtain ⟨here, later⟩ : isBlank c = true ∧ Text.allBlank rest = true := by simpa [Text.allBlank] using blank
    rw [Uncut, List.foldl_cons, shown.step_of_blank here]
    exact ⟨⟨fun comma => (neutral_of_isBlank here).2.2.1 comma.1, (ih later).1⟩, (ih later).2⟩

/-- Blanks around a text open and close nothing. -/
theorem scannedAlike_trim (cs : List Char) : ScannedAlike cs (Text.trim cs) := by
  obtain ⟨before, after, first, last, whole⟩ := Text.exists_blanks_around cs
  have shown : Nesting.Shown {} := ⟨by simp, by simp⟩
  obtain ⟨uncut, same⟩ := (shown.foldl (Text.trim cs)).blanks last
  have start : Whole {} before :=
    whole_of_neutral fun c member => neutral_of_isBlank (List.all_eq_true.mp first c member)
  have stop : ScannedAlike (Text.trim cs ++ after) (Text.trim cs) :=
    ⟨by rw [uncut_append, and_iff_left uncut], by rw [List.foldl_append, same]⟩
  have both := (start.scannedAlike _).trans stop
  rwa [← whole] at both

/-! ## Cutting -/

theorem splitCommas_ne_nil (nesting : Nesting) (cs : List Char) : splitCommas nesting cs ≠ [] := by
  cases cs with
  | nil => simp [splitCommas]
  | cons c rest =>
    unfold splitCommas
    split
    · simp
    · split <;> simp

private theorem splitCommas_cons {nesting : Nesting} {c : Char} {rest piece : List Char} {more : List (List Char)}
    (inside : ¬(c = ',' ∧ nesting.isClosed = true))
    (pieces : splitCommas (nesting.step c) rest = piece :: more) :
    splitCommas nesting (c :: rest) = (c :: piece) :: more := by
  rw [splitCommas, if_neg (by simpa using inside), pieces]

private theorem Uncut.splitCommas_eq {nesting : Nesting} {cs : List Char} (uncut : Uncut nesting cs) :
    splitCommas nesting cs = [cs] := by
  induction cs generalizing nesting with
  | nil => rfl
  | cons c rest ih => exact splitCommas_cons uncut.1 (ih uncut.2)

private theorem Whole.splitCommas_append {nesting : Nesting} {cs : List Char} (whole : Whole nesting cs)
    (rest : List Char) : splitCommas nesting (cs ++ ',' :: rest) = cs :: splitCommas {} rest := by
  induction cs generalizing nesting with
  | nil =>
    rw [whole, List.nil_append, splitCommas, if_pos (by decide)]
  | cons c more ih => exact splitCommas_cons whole.1 (ih whole.2)

/-- The parts of a list: none has a comma outside brackets and quotes, and only the last may leave something open. -/
structure Parts (pieces : List (List Char)) : Prop where
  uncut : ∀ piece ∈ pieces, Uncut {} piece
  whole : pieces.Pairwise fun piece _ => Whole {} piece

theorem Parts.of_whole {pieces : List (List Char)} (whole : ∀ piece ∈ pieces, Whole {} piece) : Parts pieces :=
  ⟨fun piece member => (whole piece member).uncut,
    List.pairwise_of_forall_mem_list fun piece member _ _ => whole piece member⟩

private theorem parts_cons {piece : List Char} {more : List (List Char)} :
    Parts (piece :: more) ↔ Uncut {} piece ∧ (more ≠ [] → Whole {} piece) ∧ Parts more := by
  constructor
  · rintro ⟨uncut, whole⟩
    obtain ⟨first, later⟩ := List.pairwise_cons.mp whole
    refine ⟨uncut piece List.mem_cons_self, fun given => ?_,
      fun other member => uncut other (List.mem_cons_of_mem _ member), later⟩
    obtain ⟨other, member⟩ := List.exists_mem_of_ne_nil more given
    exact first other member
  · rintro ⟨uncut, whole, later⟩
    refine ⟨List.forall_mem_cons.mpr ⟨uncut, later.uncut⟩, List.pairwise_cons.mpr ⟨fun other member => ?_, later.whole⟩⟩
    exact whole (List.ne_nil_of_mem member)

private theorem Parts.filter {pieces : List (List Char)} (parts : Parts pieces) (keep : List Char → Bool) :
    Parts (pieces.filter keep) :=
  ⟨fun piece member => parts.uncut piece (List.mem_filter.mp member).1, parts.whole.filter keep⟩

/-- Texts that are scanned like the parts of a list are parts of a list. -/
theorem Parts.of_alike {pieces texts : List (List Char)} (alike : List.Forall₂ ScannedAlike pieces texts)
    (parts : Parts pieces) : Parts texts := by
  induction alike with
  | nil => exact parts
  | cons same others ih =>
    obtain ⟨uncut, whole, later⟩ := parts_cons.mp parts
    refine parts_cons.mpr ⟨same.uncut.mp uncut, fun given => same.whole_iff.mp (whole fun empty => ?_), ih later⟩
    rw [empty, List.forall₂_nil_left_iff] at others
    exact given others

private theorem Parts.map_trim {pieces : List (List Char)} (parts : Parts pieces) :
    Parts (pieces.map Text.trim) := by
  refine parts.of_alike (List.forall₂_map_right_iff.mpr (List.forall₂_same.mpr fun piece _ => ?_))
  exact scannedAlike_trim piece

/-- What is cut at the commas are the parts of a list; the first of them goes on with what is open. -/
theorem parts_splitCommas {nesting : Nesting} {cs piece : List Char} {more : List (List Char)}
    (pieces : splitCommas nesting cs = piece :: more) :
    Uncut nesting piece ∧ (more ≠ [] → Whole nesting piece) ∧ Parts more := by
  induction cs generalizing nesting piece more with
  | nil =>
    cases pieces
    exact ⟨trivial, by simp, ⟨by simp, List.Pairwise.nil⟩⟩
  | cons c rest ih =>
    obtain ⟨next, others, later⟩ := List.exists_cons_of_ne_nil (splitCommas_ne_nil (nesting.step c) rest)
    by_cases comma : c = ',' ∧ nesting.isClosed = true
    · have closed : nesting = {} := by
        obtain ⟨closers, quote⟩ := nesting
        simpa [Nesting.isClosed] using comma.2
      rw [splitCommas, if_pos (by simpa using comma)] at pieces
      cases pieces
      obtain ⟨following, more, same⟩ := List.exists_cons_of_ne_nil (splitCommas_ne_nil nesting rest)
      rw [same]
      refine ⟨trivial, fun _ => closed, parts_cons.mpr ?_⟩
      rw [← closed]
      exact ih same
    · rw [splitCommas_cons comma later] at pieces
      cases pieces
      obtain ⟨uncut, whole, parts⟩ := ih later
      exact ⟨⟨comma, uncut⟩, fun given => ⟨comma, whole given⟩, parts⟩

/-- A blank before the list does not matter. -/
theorem trim_splitCommas_space (cs : List Char) :
    (splitCommas {} (' ' :: cs)).map Text.trim = (splitCommas {} cs).map Text.trim := by
  obtain ⟨piece, more, pieces⟩ := List.exists_cons_of_ne_nil (splitCommas_ne_nil {} cs)
  have spaced : splitCommas {} (' ' :: cs) = (' ' :: piece) :: more :=
    splitCommas_cons (by decide) pieces
  have blank := @Text.trim_append_left [' '] (by decide) piece
  rw [spaced, pieces, List.map_cons, List.map_cons]
  exact congrArg (· :: _) blank

/-- Parts joined with commas and spaces are what the list is split into. -/
theorem splitParameters_join {texts : List (List Char)} (parts : Parts texts)
    (trimmed : ∀ text ∈ texts, Trimmed text) (nonempty : ∀ text ∈ texts, text ≠ []) :
    splitParameters ([',', ' '].intercalate texts) = texts := by
  have trims : (splitCommas {} ([',', ' '].intercalate texts)).map Text.trim =
      if texts = [] then [[]] else texts := by
    induction texts with
    | nil => decide
    | cons text rest ih =>
      obtain ⟨uncut, whole, others⟩ := parts_cons.mp parts
      have same := (trimmed text List.mem_cons_self).trim_eq
      rw [if_neg (by simp)]
      cases rest with
      | nil => rw [List.intercalate_singleton, uncut.splitCommas_eq, List.map_singleton, same]
      | cons next following =>
        have later := ih others
          (fun other member => trimmed other (List.mem_cons_of_mem _ member))
          (fun other member => nonempty other (List.mem_cons_of_mem _ member))
        rw [if_neg (by simp)] at later
        rw [List.intercalate_cons_cons, List.append_assoc, List.cons_append, List.singleton_append,
          (whole (by simp)).splitCommas_append, List.map_cons, trim_splitCommas_space, later, same]
  unfold splitParameters
  rw [trims]
  split
  · next empty => simp [empty]
  · apply List.filter_eq_self.mpr
    intro text member
    simpa using nonempty text member

/-- A text of which nothing is cut off is all that its list holds. -/
theorem Uncut.splitParameters_eq {text : List Char} (uncut : Uncut {} text) (trimmed : Trimmed text)
    (nonempty : text ≠ []) : splitParameters text = [text] := by
  rw [splitParameters, uncut.splitCommas_eq, List.map_singleton, trimmed.trim_eq]
  exact List.filter_eq_self.mpr (by simpa using nonempty)

/-- A list is split into its parts, trimmed and none of them empty. -/
theorem parts_splitParameters (text : List Char) :
    Parts (splitParameters text) ∧ ∀ token ∈ splitParameters text, token ≠ [] ∧ Trimmed token := by
  obtain ⟨piece, more, pieces⟩ := List.exists_cons_of_ne_nil (splitCommas_ne_nil {} text)
  have parts : Parts (splitCommas {} text) := by
    rw [pieces]
    exact parts_cons.mpr (parts_splitCommas pieces)
  refine ⟨parts.map_trim.filter _, fun token member => ?_⟩
  obtain ⟨listed, nonempty⟩ := List.mem_filter.mp member
  obtain ⟨piece, _, rfl⟩ := List.mem_map.mp listed
  exact ⟨by simpa using nonempty, Text.trimmed_trim piece⟩

end LiterateRuby.Literate
