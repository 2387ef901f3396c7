import LiterateRuby.Proofs.Literate.FrontMatter
import LiterateRuby.Session

/-! # The lines of a written block

A scalar that goes on in further lines indents them, and no carriage return is written as such
(`indented_scalar`). So the only lines of a block that start in the first column are those that start with a
name, and those that start with a hyphen and a space.
-/

namespace LiterateRuby.Yaml

namespace Write

open DataFormat (Inner Item hyphens)

/-- A text in which each line feed is followed by a space or a line feed, without carriage returns. -/
inductive Indented : List Char → Prop
  | nil : Indented []
  | cons {c : Char} {cs : List Char} (feed : c ≠ '\n') (unix : c ≠ '\r') (rest : Indented cs) : Indented (c :: cs)
  | feed {c : Char} {cs : List Char} (margin : c = ' ' ∨ c = '\n') (rest : Indented (c :: cs)) :
    Indented ('\n' :: c :: cs)

private theorem Indented.append {first second : List Char} (begins : Indented first) (ends : Indented second) :
    Indented (first ++ second) := by
  induction begins with
  | nil => exact ends
  | cons feed unix _ ih => exact .cons feed unix ih
  | feed margin _ ih => exact .feed margin ih

private theorem indented_of_unbroken {cs : List Char} (unbroken : Text.Unbroken cs) : Indented cs := by
  induction cs with
  | nil => exact .nil
  | cons c rest ih =>
    obtain ⟨here, later⟩ := Text.unbroken_cons.mp unbroken
    exact .cons here.1 here.2 (ih later)

private theorem indented_spaces (count : Nat) : Indented (List.replicate count ' ') := by
  apply indented_of_unbroken
  intro c member
  rw [List.eq_of_mem_replicate member]
  decide

private theorem indented_newLine {indent : Nat} (margin : 0 < indent) : Indented (newLine indent) := by
  obtain ⟨fewer, rfl⟩ := Nat.exists_eq_add_of_le' margin
  have spaces := indented_spaces (fewer + 1)
  rw [List.replicate_succ] at spaces
  rw [newLine, List.replicate_succ]
  exact .feed (.inl rfl) spaces

private theorem Indented.unix {cs : List Char} (indented : Indented cs) : '\r' ∉ cs := by
  induction indented with
  | nil => simp
  | cons _ unix _ ih => exact List.not_mem_cons_of_ne_of_not_mem (Ne.symm unix) ih
  | feed _ _ ih => exact List.not_mem_cons_of_ne_of_not_mem (by decide) ih

/-- Every line after the first one is empty or starts with a space. -/
theorem Indented.tail_lines {cs : List Char} (indented : Indented cs) :
    ∀ line ∈ (Text.lines cs).tail, line = [] ∨ line.head? = some ' ' := by
  induction indented with
  | nil => simp [Text.lines, Text.splitOn]
  | @cons c rest feed _ _ ih =>
    rw [Text.lines, Text.splitOn, if_neg feed]
    rw [Text.lines] at ih
    cases pieces : Text.splitOn '\n' rest with
    | nil => exact absurd pieces (Text.splitOn_ne_nil '\n' rest)
    | cons piece more =>
      rw [pieces] at ih
      exact ih
  | @feed c rest margin _ ih =>
    have opens : Text.lines ('\n' :: c :: rest) = [] :: Text.lines (c :: rest) := by
      rw [Text.lines, Text.splitOn, if_pos rfl, Text.lines]
    rw [opens, List.tail_cons]
    rw [Text.lines, Text.splitOn] at ih ⊢
    rcases margin with rfl | rfl
    · rw [if_neg (by decide)] at ih ⊢
      cases pieces : Text.splitOn '\n' rest with
      | nil => exact absurd pieces (Text.splitOn_ne_nil '\n' rest)
      | cons piece more =>
        rw [pieces] at ih
        intro line member
        rcases List.mem_cons.mp member with rfl | later
        · exact .inr rfl
        · exact ih line later
    · rw [if_pos rfl] at ih ⊢
      intro line member
      rcases List.mem_cons.mp member with rfl | later
      · exact .inl rfl
      · exact ih line later

/-! ## Scalars -/

/-- Among characters that need no escape only line feeds break lines. -/
theorem isTextBreak_of_clean {c : Char} (clean : isSpecial c = false) : isTextBreak c = true ↔ c = '\n' := by
  simp only [isSpecial, Bool.not_eq_false', Bool.or_eq_true, Bool.and_eq_true, beq_iff_eq,
    decide_eq_true_eq] at clean
  simp only [isTextBreak, Bool.or_eq_true, beq_iff_eq]
  constructor
  · intro breaks
    rcases clean with rfl | printable
    · rfl
    · rcases breaks with ((feed | next) | line) | paragraph
      · exact feed
      all_goals omega
  · rintro rfl
    exact .inl (.inl (.inl rfl))

private theorem ne_return_of_clean {c : Char} (clean : isSpecial c = false) : c ≠ '\r' := by
  rintro rfl
  exact absurd clean (by decide)

/-- What is written after a line feed: the next line feed at once, else the margin and the rest. -/
def afterFeed (layout : Layout) (quote : Bool) (rest : List Char) : List Char :=
  if rest.head?.any isTextBreak then foldedFrom layout quote 0 (some '\n') rest
  else List.replicate layout.indent ' ' ++ foldedFrom layout quote layout.indent (some '\n') rest

/-- A line feed is written twice, unless another one came before it. -/
theorem foldedFrom_feed (layout : Layout) (quote : Bool) (column : Nat) (previous : Option Char)
    (rest : List Char) :
    foldedFrom layout quote column previous ('\n' :: rest) =
      (if previous.any isTextBreak then [] else ['\n']) ++ '\n' :: afterFeed layout quote rest := by
  rw [foldedFrom, if_neg (by decide), if_pos (by decide), afterFeed]
  dsimp only
  rw [apply_ite (List.cons '\n'), apply_ite (_ ++ ·)]
  simp only [List.append_assoc, List.cons_append]

private theorem foldedFrom_other {c : Char} (space : c ≠ ' ') (break' : isTextBreak c = false) (layout : Layout)
    (quote : Bool) (column : Nat) (previous : Option Char) (rest : List Char) :
    foldedFrom layout quote column previous (c :: rest) =
      if quote && c = '\'' then '\'' :: '\'' :: foldedFrom layout quote (column + 2) (some c) rest
      else c :: foldedFrom layout quote (column + 1) (some c) rest := by
  rw [foldedFrom, if_neg space, if_neg (by simp [break'])]

private theorem indented_afterFeed {layout : Layout} (margin : 0 < layout.indent) {quote : Bool} {rest : List Char}
    (clean : ∀ c ∈ rest, isSpecial c = false)
    (later : ∀ column previous, Indented (foldedFrom layout quote column previous rest)) :
    Indented ('\n' :: afterFeed layout quote rest) := by
  unfold afterFeed
  split
  · next following =>
    cases rest with
    | nil => cases following
    | cons second more =>
      have feed := (isTextBreak_of_clean (clean second List.mem_cons_self)).mp (by simpa using following)
      subst feed
      have tail := later 0 (some '\n')
      rw [foldedFrom_feed] at tail ⊢
      exact .feed (.inr rfl) tail
  · exact (indented_newLine margin).append (later layout.indent (some '\n'))

/-- Folding indents what it breaks. -/
theorem indented_foldedFrom {layout : Layout} (margin : 0 < layout.indent) (quote : Bool) {cs : List Char}
    (clean : ∀ c ∈ cs, isSpecial c = false) (column : Nat) (previous : Option Char) :
    Indented (foldedFrom layout quote column previous cs) := by
  induction cs generalizing column previous with
  | nil => exact .nil
  | cons c rest ih =>
    have cleanRest : ∀ other ∈ rest, isSpecial other = false := fun other member =>
      clean other (List.mem_cons_of_mem _ member)
    have later := ih cleanRest
    have plain := clean c List.mem_cons_self
    have unix := ne_return_of_clean plain
    by_cases feed : c = '\n'
    · subst feed
      have below := indented_afterFeed margin cleanRest later
      rw [foldedFrom_feed]
      split
      · exact below
      · exact .feed (.inr rfl) below
    by_cases space : c = ' '
    · subst space
      rw [foldedFrom, if_pos rfl]
      dsimp only
      split
      · exact (indented_newLine margin).append (later _ _)
      · exact .cons feed unix (later _ _)
    · have break' : isTextBreak c = false :=
        Bool.eq_false_iff.mpr fun breaks => feed ((isTextBreak_of_clean plain).mp breaks)
      rw [foldedFrom_other space break']
      split
      · exact .cons (by decide) (by decide) (.cons (by decide) (by decide) (later _ _))
      · exact .cons feed unix (later _ _)

/-! ## Escapes -/

private theorem toUpper_digitChar (n : Nat) :
    (Nat.digitChar n).toUpper ≠ '\n' ∧ (Nat.digitChar n).toUpper ≠ '\r' := by
  match n with
  | 0 | 1 | 2 | 3 | 4 | 5 | 6 | 7 | 8 | 9 | 10 | 11 | 12 | 13 | 14 | 15 => decide
  | _ + 16 => simp [Nat.digitChar]

private theorem exists_digitChar_of_mem_toDigits {base n : Nat} (large : 1 < base) {c : Char}
    (member : c ∈ Nat.toDigits base n) : ∃ digit, c = Nat.digitChar digit := by
  induction n using Nat.strongRecOn with
  | ind n ih =>
    rw [Nat.toDigits_eq_if large] at member
    split at member
    · exact ⟨n, List.mem_singleton.mp member⟩
    · next more =>
      rcases List.mem_append.mp member with before | last
      · exact ih (n / base) (Nat.div_lt_self (by omega) large) before
      · exact ⟨n % base, List.mem_singleton.mp last⟩

private theorem unbroken_capitalHex (digits n : Nat) : Text.Unbroken (capitalHex digits n) := by
  intro c member
  obtain ⟨digit, inside, rfl⟩ := List.mem_map.mp member
  rcases List.mem_append.mp inside with zero | inside
  · rw [List.eq_of_mem_replicate zero]
    decide
  · obtain ⟨value, rfl⟩ := exists_digitChar_of_mem_toDigits (by decide) inside
    exact toUpper_digitChar value

/-- Escapes are written in one line. -/
theorem unbroken_escape {c : Char} {written : List Char} (escapes : escape? c = some written) :
    Text.Unbroken written := by
  unfold escape? at escapes
  dsimp only at escapes
  split at escapes
  · cases escapes
    refine Text.unbroken_cons.mpr ⟨by decide, ?_⟩
    split
    · next letter found =>
      have letters : ∀ pair ∈ escapeLetters, pair.2 ≠ '\n' ∧ pair.2 ≠ '\r' := by decide
      obtain ⟨before, after, split, _⟩ := List.lookup_eq_some_iff.mp found
      exact Text.unbroken_cons.mpr ⟨letters (c.toNat, letter) (by simp [split]), Text.unbroken_nil⟩
    · split
      · exact Text.unbroken_cons.mpr ⟨by decide, unbroken_capitalHex _ _⟩
      · split
        · exact Text.unbroken_cons.mpr ⟨by decide, unbroken_capitalHex _ _⟩
        · exact Text.unbroken_cons.mpr ⟨by decide, unbroken_capitalHex _ _⟩
  · cases escapes

private theorem ne_break_of_unescaped {c : Char} (plain : escape? c = none) : c ≠ '\n' ∧ c ≠ '\r' := by
  refine ⟨?_, ?_⟩
  · rintro rfl
    exact absurd plain (by decide)
  · rintro rfl
    exact absurd plain (by decide)

/-- Double-quoted texts are indented where they are broken. -/
theorem indented_escapedFrom {layout : Layout} (margin : 0 < layout.indent) (cs : List Char) (column : Nat)
    (first afterEscape : Bool) : Indented (escapedFrom layout column first afterEscape cs) := by
  have mark (space : Prop) [Decidable space] : Indented (if space then ['\\'] else []) := by
    split
    · exact .cons (by decide) (by decide) .nil
    · exact .nil
  have breaks {cs : List Char} (inner : Indented cs) : Indented ('\\' :: cs) :=
    .cons (by decide) (by decide) inner
  induction cs generalizing column first afterEscape with
  | nil => exact .nil
  | cons c rest ih =>
    rw [escapedFrom]
    dsimp only
    split
    · next written escapes =>
      have opening := indented_of_unbroken (unbroken_escape escapes)
      split
      · have broken := (indented_newLine margin).append (mark (rest.head? == some ' '))
        have below := broken.append
          (ih (layout.indent + (if rest.head? == some ' ' then ['\\'] else []).length) false true)
        have whole := opening.append (breaks below)
        simpa only [List.append_assoc, List.cons_append] using whole
      · exact opening.append (ih _ _ _)
    · next plain =>
      obtain ⟨feed, unix⟩ := ne_break_of_unescaped plain
      split
      · have broken := (indented_newLine margin).append (mark (c = ' '))
        have below := broken.append
          (.cons feed unix (ih (layout.indent + (if c = ' ' then ['\\'] else []).length + 1) false false))
        have whole := breaks below
        simpa only [List.append_assoc, List.cons_append] using whole
      · exact .cons feed unix (ih _ _ _)

/-- A scalar goes on in indented lines. -/
theorem indented_scalar {layout : Layout} (margin : 0 < layout.indent) (column : Nat) (text : String) :
    Indented (scalar layout column text) := by
  have quote {mark : Char} (feed : mark ≠ '\n') (unix : mark ≠ '\r') {cs : List Char} (inner : Indented cs) :
      Indented (mark :: cs ++ [mark]) := (Indented.cons feed unix inner).append (.cons feed unix .nil)
  unfold scalar
  cases style : styleOf text with
  | plain =>
    have clean : ∀ c ∈ text.toList, isSpecial c = false := by
      unfold styleOf at style
      dsimp only at style
      split at style
      · next plain =>
        simp only [Bool.and_eq_true, Bool.or_eq_true, mayBePlain, Bool.not_eq_true', Bool.or_eq_false_iff,
          List.any_eq_false] at plain
        rcases plain.1 with empty | ⟨⟨_, special⟩, _⟩
        · simp [List.isEmpty_iff.mp empty]
        · intro c member
          simpa using special c member
      · split at style <;> cases style
    exact indented_foldedFrom margin false clean column none
  | single =>
    have clean : ∀ c ∈ text.toList, isSpecial c = false := by
      unfold styleOf at style
      dsimp only at style
      split at style
      · cases style
      · split at style
        · next single =>
          simp only [mayBeSingle, Bool.not_eq_true', Bool.or_eq_false_iff, List.any_eq_false] at single
          intro c member
          simpa using single.1.1 c member
        · cases style
    exact quote (by decide) (by decide) (indented_foldedFrom margin true clean (column + 1) none)
  | double =>
    exact quote (by decide) (by decide) (indented_escapedFrom margin text.toList (column + 1) true false)

/-! ## Blocks -/

/-- The first line of a text is how the text starts. -/
theorem exists_lines_eq (cs : List Char) : ∃ first more, Text.lines cs = first :: more ∧ first <+: cs := by
  obtain ⟨first, more, pieces⟩ := List.exists_cons_of_ne_nil (Text.lines_ne_nil cs)
  refine ⟨first, more, pieces, ?_⟩
  rw [← Text.unlines_lines cs, pieces]
  cases more with
  | nil => exact List.prefix_refl first
  | cons next following =>
    rw [Text.unlines, Text.joinOn_cons '\n' first (by simp)]
    exact List.prefix_append _ _

private theorem not_hyphens_of_head? {cs : List Char} (other : cs.head? ≠ some '-') : ¬hyphens <+: cs := by
  rintro ⟨rest, rfl⟩
  exact other rfl

private theorem Indented.inner {cs : List Char} (indented : Indented cs) (starts : ¬hyphens <+: cs) :
    ∀ line ∈ Text.lines cs, Inner line := by
  intro line member
  have unbroken : Text.Unbroken line := by
    intro c inside
    refine ⟨?_, ?_⟩
    · rintro rfl
      exact Text.flat_of_mem_lines member inside
    · rintro rfl
      exact indented.unix (Text.mem_of_mem_lines member inside)
  refine ⟨unbroken, ?_⟩
  obtain ⟨first, more, pieces, before⟩ := exists_lines_eq cs
  have later := indented.tail_lines
  rw [pieces] at member later
  rcases List.mem_cons.mp member with rfl | tail
  · exact fun hyphens => starts (hyphens.trans before)
  · apply not_hyphens_of_head?
    rcases later line tail with rfl | space
    · simp
    · rw [space]
      decide

private theorem unlike_of_plain {c : Char} (plain : c.isLower = true ∨ c = '_') :
    c ≠ '-' ∧ isTextBreak c = false ∧ c ≠ '\r' := by
  rcases plain with lower | rfl
  · obtain ⟨least, most⟩ := Bool.and_eq_true_iff.mp lower
    have codes : 97 ≤ c.toNat ∧ c.toNat ≤ 122 :=
      ⟨UInt32.le_iff_toNat_le.mp (of_decide_eq_true least), UInt32.le_iff_toNat_le.mp (of_decide_eq_true most)⟩
    refine ⟨by rintro rfl; revert lower; decide, ?_, by rintro rfl; revert lower; decide⟩
    have feed : c ≠ '\n' := by rintro rfl; revert lower; decide
    simp only [isTextBreak, beq_eq_false_iff_ne.mpr feed, Bool.false_or, Bool.or_eq_false_iff, beq_eq_false_iff_ne]
    omega
  · decide

/-- A name that an item can have: a short word of small letters and underscores. -/
structure ItemName (name : String) : Prop where
  given : name ≠ ""
  short : name.length ≤ 120
  plain : ∀ c ∈ name.toList, c.isLower = true ∨ c = '_'

def isItemName (name : String) : Bool :=
  name != "" && decide (name.length ≤ 120) && name.toList.all fun c => c.isLower || c == '_'

private theorem isItemName_iff {name : String} : isItemName name = true ↔ ItemName name := by
  simp only [isItemName, Bool.and_eq_true, bne_iff_ne, decide_eq_true_iff, List.all_eq_true, Bool.or_eq_true,
    beq_iff_eq, and_assoc]
  exact ⟨fun ⟨given, short, plain⟩ => ⟨given, short, plain⟩, fun named => ⟨named.given, named.short, named.plain⟩⟩

private theorem isSimpleKey_of_itemName {name : String} (named : ItemName name) : isSimpleKey name = true := by
  have few : name.length + 5 < 128 := Nat.lt_of_le_of_lt (Nat.add_le_add_right named.short 5) (by decide)
  have solid : name.toList.any isTextBreak = false := by
    simpa using fun c member => (unlike_of_plain (named.plain c member)).2.1
  simp [isSimpleKey, named.given, few, solid]

private theorem unbroken_of_itemName {name : String} (named : ItemName name) : Text.Unbroken name.toList := by
  intro c member
  obtain ⟨_, solid, unix⟩ := unlike_of_plain (named.plain c member)
  refine ⟨?_, unix⟩
  rintro rfl
  cases solid

private theorem head?_of_itemName {name : String} (named : ItemName name) : name.toList.head? ≠ some '-' :=
  fun starts => (unlike_of_plain (named.plain '-' (List.mem_of_head? starts))).1 rfl

private theorem head?_scalar {name : String} (starts : name.toList.head? ≠ some '-') (layout : Layout)
    (column : Nat) :
    (scalar layout column name).head? ≠ some '-' := by
  unfold scalar
  cases styleOf name with
  | plain =>
    cases chars : name.toList with
    | nil => simp [foldedFrom]
    | cons c rest =>
      have other : c ≠ '-' := by simpa [chars] using starts
      dsimp only
      rw [foldedFrom]
      dsimp only
      split_ifs <;> simp [newLine, other]
  | single => simp
  | double => simp

private theorem inner_entry {name : String} (named : ItemName name) (value : String) :
    ∀ line ∈ Text.lines (entry 0 name value), Inner line := by
  have key := @indented_scalar ⟨2, false⟩ (by decide) 0 name
  have written := @indented_scalar ⟨2, true⟩ (by decide) ((scalar ⟨2, false⟩ 0 name).length + 2) value
  have whole := key.append ((@indented_of_unbroken [':', ' '] (by simp)).append written)
  have same : entry 0 name value = scalar ⟨2, false⟩ 0 name ++ ([':', ' '] ++
      scalar ⟨2, true⟩ ((scalar ⟨2, false⟩ 0 name).length + 2) value) := by
    simp [entry, isSimpleKey_of_itemName named]
  rw [same]
  refine whole.inner (not_hyphens_of_head? ?_)
  have starts := head?_scalar (head?_of_itemName named) ⟨2, false⟩ 0
  cases chars : scalar ⟨2, false⟩ 0 name with
  | nil => simp
  | cons c rest => simpa [chars] using starts

private theorem inner_pair (key value : String) : ∀ line ∈ Text.lines (entry 2 key value), Inner line := by
  have scalars (split : Bool) (column : Nat) (text : String) : Indented (scalar ⟨4, split⟩ column text) :=
    indented_scalar (Nat.zero_lt_succ 3) column text
  have margin := indented_spaces 2
  have sign {mark : Char} (feed : mark ≠ '\n') (unix : mark ≠ '\r') : Indented [mark, ' '] :=
    .cons feed unix (.cons (by decide) (by decide) .nil)
  have colon := @sign ':' (by decide) (by decide)
  have question := @sign '?' (by decide) (by decide)
  have starts : (entry 2 key value).head? ≠ some '-' := by
    unfold entry
    dsimp only
    split <;> simp [List.replicate]
  refine Indented.inner ?_ (not_hyphens_of_head? starts)
  unfold entry
  dsimp only
  split
  · exact ((margin.append (scalars _ _ _)).append colon).append (scalars _ _ _)
  · have before := (margin.append question).append (scalars true (2 + 2) key)
    have after := (colon.append (scalars true (2 + 2) value))
    have feed : Indented ('\n' :: List.replicate 2 ' ' ++ [':', ' '] ++ scalar ⟨2 + 2, true⟩ (2 + 2) value) := by
      have spaced := margin.append after
      exact .feed (.inl rfl) spaced
    have whole := before.append feed
    simpa only [List.append_assoc, List.cons_append] using whole

private theorem inner_name {name : String} (named : ItemName name) :
    ∀ line ∈ Text.lines (name.toList ++ [':']), Inner line := by
  have colon : Indented [':'] := .cons (by decide) (by decide) .nil
  have whole := (indented_of_unbroken (unbroken_of_itemName named)).append colon
  refine whole.inner (not_hyphens_of_head? ?_)
  have starts := head?_of_itemName named
  cases chars : name.toList with
  | nil => simp
  | cons c rest => simpa [chars] using starts

private theorem inner_listed (value : String) :
    ∀ line ∈ Text.lines ('-' :: ' ' :: scalar ⟨2, true⟩ 2 value), Inner line := by
  have written := @indented_scalar ⟨2, true⟩ (by decide) 2 value
  refine Indented.inner (.cons (by decide) (by decide) (.cons (by decide) (by decide) written)) ?_
  rintro ⟨rest, same⟩
  simp [hyphens] at same

/-- No line of a block ends it. -/
theorem inner_write {items : List (String × Item)} (named : ∀ entry ∈ items, ItemName entry.1) :
    ∀ line ∈ write items, Inner line.toList := by
  intro line member
  obtain ⟨text, written, inside⟩ := List.mem_flatMap.mp member
  obtain ⟨⟨name, value⟩, listed, made⟩ := List.mem_flatMap.mp written
  have name' : ItemName name := named _ listed
  replace made : text ∈ item name value := made
  have shown : line.toList ∈ Text.lines text := by
    have mapped := List.mem_map_of_mem (f := String.toList) inside
    rwa [Text.map_toList_linesOf, String.toList_ofList] at mapped
  cases value with
  | text value =>
    rw [item, List.mem_singleton] at made
    subst made
    exact inner_entry name' value _ shown
  | texts values =>
    rcases List.mem_cons.mp made with rfl | made
    · exact inner_name name' _ shown
    · obtain ⟨value, _, rfl⟩ := List.mem_map.mp made
      exact inner_listed value _ shown
  | entries pairs =>
    rcases List.mem_cons.mp made with rfl | made
    · exact inner_name name' _ shown
    · obtain ⟨⟨key, value⟩, _, rfl⟩ := List.mem_map.mp made
      exact inner_pair key value _ shown

end Write

open DataFormat (Inner Loads)
open Literate (frontMatter)

/-- Front matter that is written for a document never ends its own block. -/
theorem inner_frontMatter (document : Document) (first : Option RubyUnit) :
    ∀ line ∈ DataFormat.write (frontMatter document first), Inner line.toList := by
  have names : (["require", "inherits_from", "include", "extend", "aliases", "alias_method"]).all
      Write.isItemName = true := by decide
  refine Write.inner_write fun entry member => ?_
  have listed := (Literate.keys_frontMatter document first).subset (List.mem_map_of_mem member)
  exact Write.isItemName_iff.mp (List.all_eq_true.mp names _ listed)

/-- What front matter of one text under one name loads as can be computed. -/
theorem loads_of_single {document : Document} {first : Option RubyUnit} {name text : String}
    (front : frontMatter document first = [(name, .texts [text])])
    (decoded : (match DataFormat.decode (Text.unlines
        ((DataFormat.write [(name, .texts [text])]).map String.toList)) with
      | .ok (.map [(.str key, .list [.str item])]) => key == name && item == text
      | _ => false) = true) :
    Loads (frontMatter document first) := by
  refine ⟨inner_frontMatter document first, ?_⟩
  rw [front]
  split at decoded
  · next key item found =>
    rw [Bool.and_eq_true, beq_iff_eq, beq_iff_eq] at decoded
    rw [found, decoded.1, decoded.2]
    rfl
  · cases decoded

end LiterateRuby.Yaml
