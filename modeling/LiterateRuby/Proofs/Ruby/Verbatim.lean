import LiterateRuby.Proofs.Constant
import LiterateRuby.Proofs.Number.Layout
import LiterateRuby.Ruby.Literal
import Mathlib.Data.List.Infix
import Mathlib.Data.List.TakeWhile

/-! # Literals that are written back

A right-hand side without heredocs is decoded to a plain string, to a number, word or symbol that is spelled as it
is written, or kept as it is. `literal_decodeValue` says that, strings apart, what is written back is the text of
the source, but for the spaces behind the minus sign of a number in decimal digits.
-/

namespace LiterateRuby.Ruby

/-! ## Trees that suit their text -/

/-- What the grammar promises of the text of a tree, its operand apart: truth values and nothing are spelled as
such, a symbol is a colon and a name, and the parts of a string have texts. -/
structure Spelled (source : Source) (tree : Tree) (text : String) : Prop where
  text_eq : textOf source tree = .ok text
  given : text ≠ ""
  word : ∀ word ∈ ["true", "false", "nil"], tree.kind = word → text = word
  symbol : tree.kind = "simple_symbol" → ∃ name, name ≠ [] ∧ text.toList = ':' :: name
  parts : tree.kind = "string" → ∀ part ∈ tree.namedChildren, ∃ content, textOf source part = .ok content

/-- A tree of a kind that the grammar promises nothing of. -/
theorem Spelled.of_kind {source : Source} {tree : Tree} {text : String} (text_eq : textOf source tree = .ok text)
    (given : text ≠ "") (other : tree.kind ∉ ["true", "false", "nil", "simple_symbol", "string"]) :
    Spelled source tree text where
  text_eq := text_eq
  given := given
  word word member kind := absurd (List.mem_append_left ["simple_symbol", "string"] (kind ▸ member)) other
  symbol kind := absurd (by simp [kind]) other
  parts kind := absurd (by simp [kind]) other

/-- A tree that suits its text, and whose operands do: the text of a sign and an operand ends with that of the
operand. -/
inductive Suits (source : Source) : Tree → String → Prop
  | plain {tree : Tree} {text : String} (spelled : Spelled source tree text)
    (alone : tree.kind = "unary" → tree.child? "operand" = none) : Suits source tree text
  | signed {tree operand : Tree} {text inner : String} {lead : List Char} (spelled : Spelled source tree text)
    (found : tree.child? "operand" = some operand) (named : operand.label.named = true)
    (ends : text.toList = lead ++ inner.toList) (below : Suits source operand inner) : Suits source tree text

/-- A text without a run of digits that is too long to be read as a number. -/
def ShortRuns (cs : List Char) : Prop :=
  ∀ run, run <:+: cs → (∀ c ∈ run, Text.isDigit c = true) → run.length ≤ Number.maxIntDigits

private theorem ShortRuns.of_suffix {cs rest : List Char} (short : ShortRuns cs) (ends : rest <:+ cs) :
    ShortRuns rest :=
  fun run inside => short run (inside.trans ends.isInfix)

/-- A minus sign, spaces, and a number that is spelled as it is written: a positive integer or a float. -/
structure Negated (source : Source) (tree : Tree) (text digits : String) : Prop where
  kind : tree.kind = "unary"
  spaced : ∃ gap : Nat, text.toList = '-' :: List.replicate gap ' ' ++ digits.toList
  operand : ∃ operand, tree.child? "operand" = some operand ∧ textOf source operand = .ok digits ∧
    (operand.kind = "integer" ∧ (∃ n : Nat, 0 < n ∧ digits = Number.intText n) ∨
      operand.kind = "float" ∧ digits.toList.head? ≠ some '-' ∧ ∃ x, canonicalFloat? digits = some x)

/-! ## Numbers -/

private theorem afterMinus_suffix (cs : List Char) : afterMinus cs <:+ cs := by
  unfold afterMinus
  split
  · exact List.suffix_cons _ _
  · exact List.suffix_rfl

/-- The characters of an integer that must be digits. -/
def integerDigits (cs : List Char) : List Char :=
  if (afterMinus cs).getLast? = some '\n' then (afterMinus cs).dropLast else afterMinus cs

private theorem canonicalInt?_eq (text : String) :
    canonicalInt? text =
      if (integerDigits text.toList).isEmpty || !(integerDigits text.toList).all Text.isDigit then .ok none
      else if Number.maxIntDigits < (integerDigits text.toList).length then
        .error (.tooManyDigits (integerDigits text.toList).length)
      else
        match Number.intOfText? text.toList with
        | some value => .ok (if Number.intText value = text then some value else none)
        | none => .ok none :=
  rfl

private theorem integerDigits_within (cs : List Char) : integerDigits cs <:+: cs := by
  unfold integerDigits
  split_ifs
  · exact (List.dropLast_prefix _).isInfix.trans (afterMinus_suffix cs).isInfix
  · exact (afterMinus_suffix cs).isInfix

/-- An integer whose digits are not too many is decoded or not, and only if it is spelled as it is written. -/
theorem canonicalInt?_eq_ok {text : String} (short : ShortRuns text.toList) :
    ∃ result, canonicalInt? text = .ok result ∧ ∀ value ∈ result, Number.intText value = text := by
  rw [canonicalInt?_eq]
  split_ifs with shaped long
  · exact ⟨none, rfl, by simp⟩
  · have digits : ∀ c ∈ integerDigits text.toList, Text.isDigit c = true := by
      simp only [Bool.or_eq_true, not_or, Bool.not_eq_true, Bool.not_eq_false'] at shaped
      exact List.all_eq_true.mp shaped.2
    exact absurd (short _ (integerDigits_within text.toList) digits) (Nat.not_le.mpr long)
  · split
    · next value read =>
      refine ⟨_, rfl, fun other found => ?_⟩
      split_ifs at found with same
      · cases found
        exact same
      · cases found
    · exact ⟨none, rfl, by simp⟩

/-- The digits of an integer that is spelled as it is written. -/
theorem integerDigits_intText (i : Int) :
    integerDigits (Number.intText i).toList = Number.natDigits i.natAbs := by
  have digits : ∀ c ∈ Number.natDigits i.natAbs, Text.isDigit c = true :=
    fun c member => Number.isDigit_of_ascii (Number.ascii_natDigits _ c member)
  have unsigned : afterMinus (Number.intText i).toList = Number.natDigits i.natAbs := by
    unfold Number.intText
    split_ifs
    · simp [afterMinus]
    · rw [String.toList_ofList]
      unfold afterMinus
      split
      · next rest starts => exact absurd starts (Number.not_minus_of_digits digits rest)
      · rfl
  rw [integerDigits, unsigned, if_neg]
  intro last
  have feed := digits '\n' (List.mem_of_getLast? last)
  revert feed
  decide

/-- An integer that is decoded has not too many digits to be written. -/
theorem literal_of_canonicalInt? {text : String} {value : Int} (found : canonicalInt? text = .ok (some value)) :
    ∃ shown, (Constant.int value).literal = .ok shown := by
  rw [canonicalInt?_eq] at found
  split_ifs at found with shaped long
  · cases found
  · split at found
    · split_ifs at found with same
      · cases found
        rw [← same, integerDigits_intText, Nat.not_lt] at long
        exact ⟨_, Constant.literal_int_eq_ok_iff.mpr ⟨long, rfl⟩⟩
      · cases found
    · cases found

/-- A positive integer with not too many digits is decoded. -/
theorem canonicalInt?_intText {n : Nat} (short : ShortRuns (Number.intText n).toList) :
    canonicalInt? (Number.intText n) = .ok (some (n : Int)) := by
  have digits : ∀ c ∈ Number.natDigits n, Text.isDigit c = true :=
    fun c member => Number.isDigit_of_ascii (Number.ascii_natDigits n c member)
  have given : Number.natDigits n ≠ [] := Nat.toDigits_ne_nil
  have whole : integerDigits (Number.natDigits n) = Number.natDigits n := by
    have own := integerDigits_intText n
    rwa [Number.toList_intText_natCast] at own
  have all : (Number.natDigits n).all Text.isDigit = true := List.all_eq_true.mpr digits
  rw [Number.toList_intText_natCast] at short
  have few := short _ List.infix_rfl digits
  rw [canonicalInt?_eq, Number.toList_intText_natCast, whole, if_neg (by simp [all, given]),
    if_neg (Nat.not_lt.mpr few), Number.intOfText?_digits given digits, Number.digitsValue_natDigits]
  simp

private theorem natDigits_le_of_short {i : Int} (short : ShortRuns (Number.intText i).toList) :
    (Number.natDigits i.natAbs).length ≤ Number.maxIntDigits := by
  refine short _ ?_ fun c member => Number.isDigit_of_ascii (Number.ascii_natDigits _ c member)
  unfold Number.intText
  split_ifs
  · simpa using (List.suffix_cons '-' (Number.natDigits i.natAbs)).isInfix
  · simp

/-- A float is decoded only if it is spelled as it is written, with digits on both sides of a point. -/
theorem canonicalFloat?_eq_some {text : String} {x : Number.Binary64} (found : canonicalFloat? text = some x) :
    x.text = text ∧ '.' ∈ text.toList ∧ ' ' ∉ text.toList := by
  unfold canonicalFloat? at found
  dsimp only at found
  split at found
  · next fraction pointed =>
    split_ifs at found with shaped
    simp only [Bool.or_eq_true, not_or, Bool.not_eq_true, Bool.not_eq_false'] at shaped
    have digits := List.all_eq_true.mp shaped.1.2
    have inner : '.' ∈ afterMinus text.toList := by
      rw [← List.takeWhile_append_dropWhile (p := Text.isDigit) (l := afterMinus text.toList), pointed]
      simp
    refine ⟨by simpa using (Option.filter_eq_some_iff.mp found).2, (afterMinus_suffix _).subset inner, ?_⟩
    intro space
    have behind : ' ' ∈ afterMinus text.toList := by
      unfold afterMinus
      split
      · next rest signed =>
        rw [signed] at space
        simpa using space
      · exact space
    rw [← List.takeWhile_append_dropWhile (p := Text.isDigit) (l := afterMinus text.toList), pointed,
      List.mem_append, List.mem_cons] at behind
    have digit : Text.isDigit ' ' = true := by
      rcases behind with whole | point | part
      · exact List.mem_takeWhile_imp whole
      · cases point
      · exact digits _ part
    revert digit
    decide
  · cases found

private theorem toList_text_neg_of_canonical {text : String} {x : Number.Binary64}
    (canonical : canonicalFloat? text = some x)
    (unsigned : text.toList.head? ≠ some '-') : x.neg.text.toList = '-' :: text.toList := by
  obtain ⟨rfl, pointed, -⟩ := canonicalFloat?_eq_some canonical
  have number : x ≠ .nan := by
    rintro rfl
    revert pointed
    decide
  exact Number.Binary64.toList_text_neg unsigned number

/-! ## Decoding a tree without heredocs -/

/-- A value, or the text that none was found in. -/
def orKeep (text : String) (found : Option Constant) : Except TreeFault Constant :=
  match found with
  | some value => .ok value
  | none => keepSource text

private theorem keepSource_of_given {text : String} (given : text ≠ "") : keepSource text = .ok (.raw text) := by
  rw [keepSource, Constant.ofSource, if_neg given]
  rfl

private theorem orKeep_of_given {text : String} (given : text ≠ "") (found : Option Constant) :
    orKeep text found = .ok (found.getD (.raw text)) := by
  cases found with
  | none => exact keepSource_of_given given
  | some value => rfl

private theorem descendants_of_mem {kind : String} {trees : List Tree} {tree : Tree} (member : tree ∈ trees)
    (named : tree.label.named = true) (absent : Tree.descendantsOfAll kind trees = []) :
    tree.descendants kind = [] := by
  induction trees with
  | nil => cases member
  | cons first rest ih =>
    rw [Tree.descendantsOfAll, List.append_eq_nil_iff] at absent
    rcases List.mem_cons.mp member with rfl | later
    · simpa [named] using absent.2
    · exact ih later absent.1

private theorem descendants_of_child {tree operand : Tree} {field kind : String}
    (found : tree.child? field = some operand)
    (named : operand.label.named = true) (absent : tree.descendants kind = []) :
    operand.descendants kind = [] := by
  cases tree with
  | node label children =>
    refine descendants_of_mem (Tree.child?_mem found) named ?_
    rw [Tree.descendants] at absent
    split_ifs at absent
    exact absent

section Decode

variable {source : Source} {root tree : Tree} {text : String}

private theorem heredocEnd?_of_plain (plain : tree.descendants "heredoc_beginning" = []) :
    heredocEnd? source root tree = .ok none := by
  simp [heredocEnd?, plain]

variable (plain : tree.descendants "heredoc_beginning" = []) (spelled : Spelled source tree text)
include plain spelled

private theorem decodeValue_integer (kind : tree.kind = "integer") :
    decodeValue source root tree = canonicalInt? text >>= fun found => orKeep text (found.map .int) := by
  rw [decodeValue, heredocEnd?_of_plain plain]
  simp only [Except.ok_bind, spelled.text_eq, kind]
  congr 1
  funext found
  cases found <;> rfl

private theorem decodeValue_float (kind : tree.kind = "float") :
    decodeValue source root tree = orKeep text ((canonicalFloat? text).map .float) := by
  rw [decodeValue, heredocEnd?_of_plain plain]
  simp only [Except.ok_bind, spelled.text_eq, kind]
  cases canonicalFloat? text <;> rfl

private theorem decodeValue_unary {operand : Tree} (kind : tree.kind = "unary")
    (found : tree.child? "operand" = some operand) :
    decodeValue source root tree =
      if text.toList.head? = some '-' then
        decodeValue source root operand >>= fun value => orKeep text (negated? text value)
      else keepSource text := by
  rw [decodeValue, heredocEnd?_of_plain plain]
  simp only [Except.ok_bind, spelled.text_eq, kind]
  split
  · next other same =>
    obtain rfl : other = operand := Option.some.inj (same.symm.trans found)
    rfl
  · next absent =>
    rw [found] at absent
    cases absent

/-- A string is decoded, or kept as it is written. -/
theorem decodeValue_string (kind : tree.kind = "string") :
    ∃ value, decodeValue source root tree = .ok value ∧ (value = .raw text ∨ ∃ content, value = .str content) := by
  obtain ⟨contents, all⟩ := Except.exists_mapM (spelled.parts kind)
  have found : ∃ content, plainString? source tree = .ok content := by
    unfold plainString?
    rw [if_neg (by simp [kind])]
    split_ifs
    · exact ⟨none, rfl⟩
    · rw [all]
      exact ⟨_, rfl⟩
  obtain ⟨content, decoded⟩ := found
  rw [decodeValue, heredocEnd?_of_plain plain]
  simp only [Except.ok_bind, spelled.text_eq, kind, decoded]
  cases content with
  | none => exact ⟨_, keepSource_of_given spelled.given, .inl rfl⟩
  | some content => exact ⟨_, rfl, .inr ⟨content, rfl⟩⟩

/-- A tree of another kind is kept as it is written, or as a value that is written in the same way and is no
number. -/
theorem decodeValue_other (string : tree.kind ≠ "string") (integer : tree.kind ≠ "integer")
    (float : tree.kind ≠ "float") (alone : tree.kind = "unary" → tree.child? "operand" = none) :
    ∃ value, decodeValue source root tree = .ok value ∧ value.literal = .ok text ∧
      (∀ i, value ≠ .int i) ∧ ∀ x, value ≠ .float x := by
  have kept : ∃ value, keepSource text = .ok value ∧ value.literal = .ok text ∧
      (∀ i, value ≠ .int i) ∧ ∀ x, value ≠ .float x :=
    ⟨_, keepSource_of_given spelled.given, rfl, by simp, by simp⟩
  rw [decodeValue, heredocEnd?_of_plain plain]
  simp only [Except.ok_bind, spelled.text_eq]
  split
  · next kind => exact absurd kind string
  · next kind => exact absurd kind integer
  · next kind => exact absurd kind float
  · next kind => exact ⟨_, rfl, by rw [spelled.word "true" (by decide) kind]; rfl, by simp, by simp⟩
  · next kind => exact ⟨_, rfl, by rw [spelled.word "false" (by decide) kind]; rfl, by simp, by simp⟩
  · next kind => exact ⟨_, rfl, by rw [spelled.word "nil" (by decide) kind]; rfl, by simp, by simp⟩
  · next kind =>
    obtain ⟨name, given, same⟩ := spelled.symbol kind
    have named : String.ofList name ≠ "" := fun empty => given (by simpa using congrArg String.toList empty)
    refine ⟨.symbol (String.ofList name), ?_, ?_, by simp, by simp⟩
    · rw [same, List.drop_one, List.tail_cons, Constant.ofSymbol, if_neg named]
      rfl
    · rw [Constant.literal, Except.ok.injEq, ← String.toList_inj]
      simp [same]
  · next kind =>
    split
    · next operand found =>
      rw [alone kind] at found
      cases found
    · exact kept
  · exact kept

end Decode

/-! ## Writing a decoded tree -/

/-- What is written for a value is the text that it was decoded from, without the spaces behind the minus sign
of a number. -/
structure WrittenBack (source : Source) (tree : Tree) (text : String) (value : Constant) : Prop where
  negated : ∀ digits, Negated source tree text digits → value.literal = .ok ("-" ++ digits)
  kept : (∀ digits, ¬Negated source tree text digits) → value.literal = .ok text

/-- What a tree is decoded to: a number only if its text is that of one, or starts with a minus sign. -/
structure Decoded (source : Source) (tree : Tree) (text : String) (value : Constant) : Prop where
  written : tree.kind = "string" ∧ (∃ content, value = .str content) ∨ WrittenBack source tree text value
  int : ∀ i, value = .int i → tree.kind = "integer" ∧ Number.intText i = text ∨ text.toList.head? = some '-'
  float : ∀ x, value = .float x → tree.kind = "float" ∧ canonicalFloat? text = some x ∨ text.toList.head? = some '-'

section Written

variable {source : Source} {tree : Tree} {text : String}

private theorem WrittenBack.of_kind {value : Constant} (kind : tree.kind ≠ "unary")
    (same : value.literal = .ok text) :
    WrittenBack source tree text value :=
  ⟨fun _ negated => absurd negated.kind kind, fun _ => same⟩

/-- A tree that is no sign before an operand. -/
theorem decoded_of_alone (root : Tree) (plain : tree.descendants "heredoc_beginning" = [])
    (spelled : Spelled source tree text) (short : ShortRuns text.toList)
    (alone : tree.kind = "unary" → tree.child? "operand" = none) :
    ∃ value, decodeValue source root tree = .ok value ∧ Decoded source tree text value := by
  by_cases string : tree.kind = "string"
  · obtain ⟨value, decoded, rfl | ⟨content, rfl⟩⟩ := @decodeValue_string _ root _ _ plain spelled string
    · exact ⟨_, decoded, .inr (.of_kind (by simp [string]) rfl), by simp, by simp⟩
    · exact ⟨_, decoded, .inl ⟨string, content, rfl⟩, by simp, by simp⟩
  by_cases integer : tree.kind = "integer"
  · obtain ⟨result, found, same⟩ := canonicalInt?_eq_ok short
    rw [decodeValue_integer plain spelled integer, found, Except.ok_bind, orKeep_of_given spelled.given]
    refine ⟨_, rfl, .inr (.of_kind (by simp [integer]) ?_), ?_, ?_⟩
    · cases result with
      | none => rfl
      | some i =>
        have spelled := same i rfl
        rw [← spelled] at short
        exact Constant.literal_int_eq_ok_iff.mpr ⟨natDigits_le_of_short short, spelled⟩
    · cases result with
      | none => simp
      | some i => simpa [integer] using .inl (same i rfl)
    · cases result <;> simp
  by_cases float : tree.kind = "float"
  · rw [decodeValue_float plain spelled float, orKeep_of_given spelled.given]
    cases found : canonicalFloat? text with
    | none => exact ⟨_, rfl, .inr (.of_kind (by simp [float]) rfl), by simp, by simp⟩
    | some x =>
      have same := (canonicalFloat?_eq_some found).1
      exact ⟨_, rfl, .inr (.of_kind (by simp [float]) (congrArg Except.ok same)), by simp, by simp [float, found]⟩
  · obtain ⟨value, decoded, same, noInt, noFloat⟩ :=
      @decodeValue_other _ root _ _ plain spelled string integer float alone
    refine ⟨value, decoded, .inr ⟨fun digits negated => ?_, fun _ => same⟩, fun i same => absurd same (noInt i),
      fun x same => absurd same (noFloat x)⟩
    obtain ⟨operand, found, -⟩ := negated.operand
    rw [alone negated.kind] at found
    cases found

def spaceless (cs : List Char) : List Char := cs.filter (· != ' ')

private theorem spaceless_of_solid {digits : List Char} (solid : ' ' ∉ digits) : spaceless digits = digits := by
  refine List.filter_eq_self.mpr fun c member => ?_
  rw [bne_iff_ne]
  rintro rfl
  exact solid member

private theorem negated?_int_eq_some_iff {i : Int} {opposite : Constant} :
    negated? text (.int i) = some opposite ↔
      (Number.intText (-i)).toList = spaceless text.toList ∧ opposite = .int (-i) := by
  simp [negated?, spaceless, ← String.toList_inj, eq_comm]

private theorem negated?_float_eq_some_iff {x : Number.Binary64} {opposite : Constant} :
    negated? text (.float x) = some opposite ↔
      x.neg.text.toList = spaceless text.toList ∧ opposite = .float x.neg := by
  simp [negated?, spaceless, ← String.toList_inj, eq_comm]

end Written

/-- A minus sign and spaces stand before digits that the sign alone stands before once spaces are taken out. -/
theorem gap_of_spaceless {lead digits : List Char} (signed : (lead ++ digits).head? = some '-')
    (solid : ' ' ∉ digits) (same : spaceless (lead ++ digits) = '-' :: digits) :
    ∃ gap : Nat, lead = '-' :: List.replicate gap ' ' := by
  have front : spaceless lead = ['-'] := by
    rw [spaceless, List.filter_append] at same
    have split : spaceless lead ++ spaceless digits = ['-'] ++ digits := same
    rw [spaceless_of_solid solid] at split
    exact List.append_cancel_right split
  cases lead with
  | nil => cases front
  | cons c gap =>
    obtain rfl : c = '-' := by simpa using signed
    have blank : ∀ c ∈ gap, c = ' ' := by
      simpa [spaceless, List.filter_eq_nil_iff] using front
    exact ⟨gap.length, congrArg _ (List.eq_replicate_of_mem blank)⟩

private theorem spaceless_gap {digits : List Char} (solid : ' ' ∉ digits) (gap : Nat) :
    spaceless ('-' :: List.replicate gap ' ' ++ digits) = '-' :: digits := by
  have whole := spaceless_of_solid solid
  rw [spaceless] at whole
  simp [spaceless, whole]

/-! ## A minus sign before an operand -/

section Signed

variable {source : Source} {tree operand : Tree} {text inner : String} {value : Constant}

/-- What is written back has a literal. -/
theorem WrittenBack.exists_literal (written : WrittenBack source tree text value) :
    ∃ shown, value.literal = .ok shown := by
  by_cases negated : ∃ digits, Negated source tree text digits
  · obtain ⟨digits, negated⟩ := negated
    exact ⟨_, written.negated digits negated⟩
  · exact ⟨_, written.kept fun digits has => negated ⟨digits, has⟩⟩

/-- The text of a number that is written with a minus sign starts with it. -/
theorem WrittenBack.signed (written : WrittenBack source tree text value) {shown : String}
    (literal : value.literal = .ok shown) (signed : text.toList.head? = some '-') :
    shown.toList.head? = some '-' := by
  by_cases negated : ∃ digits, Negated source tree text digits
  · obtain ⟨digits, negated⟩ := negated
    obtain rfl := Except.ok.inj (literal.symm.trans (written.negated digits negated))
    simp
  · obtain rfl := Except.ok.inj (literal.symm.trans (written.kept fun digits has => negated ⟨digits, has⟩))
    exact signed

variable (found : tree.child? "operand" = some operand) (operandText : textOf source operand = .ok inner)
include found operandText

/-- A value whose opposite is spelled as the text without spaces is that of a number behind a minus sign. -/
theorem negated_of_found (kind : tree.kind = "unary") {lead : List Char} (ends : text.toList = lead ++ inner.toList)
    (signed : text.toList.head? = some '-') (below : Decoded source operand inner value) {opposite : Constant}
    (negates : negated? text value = some opposite) :
    Negated source tree text inner ∧ opposite.literal = .ok ("-" ++ inner) := by
  have sign : (spaceless text.toList).head? = some '-' := by
    obtain ⟨rest, same⟩ := List.head?_eq_some_iff.mp signed
    simp [same, spaceless]
  have written (number : ∀ content, value ≠ .str content) : WrittenBack source operand inner value := by
    rcases below.written with ⟨-, content, same⟩ | written
    · exact absurd same (number content)
    · exact written
  cases value with
  | int i =>
    obtain ⟨same, rfl⟩ := negated?_int_eq_some_iff.mp negates
    rw [← same] at sign
    obtain ⟨n, positive, rfl⟩ := Number.natural_of_opposite_signed sign
    have unsigned : (Number.intText n).toList.head? ≠ some '-' := by
      rw [Number.toList_intText_natCast]
      exact fun minus => Number.minus_not_mem_natDigits n (List.mem_of_head? minus)
    obtain ⟨shown, literal⟩ := (written (by simp)).exists_literal
    obtain ⟨few, rfl⟩ := Constant.literal_int_eq_ok_iff.mp literal
    rcases below.int n rfl with ⟨integer, rfl⟩ | minus
    · have digits := Number.toList_intText_neg positive
      rw [← Number.toList_intText_natCast] at digits
      have solid := Number.space_not_mem_natDigits n
      rw [← Number.toList_intText_natCast] at solid
      rw [digits, ends] at same
      obtain ⟨gap, rfl⟩ := gap_of_spaceless (ends ▸ signed) solid same.symm
      refine ⟨⟨kind, ⟨gap, ends⟩, operand, found, operandText, .inl ⟨integer, n, positive, rfl⟩⟩, ?_⟩
      rw [Constant.literal_int_eq_ok_iff, Int.natAbs_neg, ← String.toList_inj, digits]
      exact ⟨few, by simp⟩
    · exact absurd ((written (by simp)).signed literal minus) unsigned
  | float x =>
    obtain ⟨same, rfl⟩ := negated?_float_eq_some_iff.mp negates
    rw [← same] at sign
    have unsigned : x.text.toList.head? ≠ some '-' := fun minus => Number.Binary64.head?_text_neg minus sign
    rcases below.float x rfl with ⟨float, canonical⟩ | minus
    · obtain ⟨spelled, -, solid⟩ := canonicalFloat?_eq_some canonical
      rw [spelled] at unsigned
      have digits := toList_text_neg_of_canonical canonical unsigned
      rw [digits, ends] at same
      obtain ⟨gap, rfl⟩ := gap_of_spaceless (ends ▸ signed) solid same.symm
      refine ⟨⟨kind, ⟨gap, ends⟩, operand, found, operandText, .inr ⟨float, unsigned, x, canonical⟩⟩, ?_⟩
      rw [Constant.literal, Except.ok.injEq, ← String.toList_inj, digits]
      simp
    · exact absurd ((written (by simp)).signed rfl minus) unsigned
  | _ => cases negates

/-- A number that is spelled as it is written is negated by the minus sign before it. -/
theorem found_of_negated (root : Tree) (plain : operand.descendants "heredoc_beginning" = [])
    (spelled : Spelled source operand inner) (short : ShortRuns inner.toList)
    (decoded : decodeValue source root operand = .ok value) {digits : String}
    (negated : Negated source tree text digits) :
    ∃ opposite, negated? text value = some opposite ∧ opposite.literal = .ok ("-" ++ digits) := by
  obtain ⟨-, ⟨gap, spaced⟩, other, same, digitsText, number⟩ := negated
  obtain rfl : operand = other := Option.some.inj (found.symm.trans same)
  obtain rfl : inner = digits := Except.ok.inj (operandText.symm.trans digitsText)
  rcases number with ⟨integer, n, positive, rfl⟩ | ⟨float, unsigned, x, canonical⟩
  · rw [decodeValue_integer plain spelled integer, canonicalInt?_intText short] at decoded
    obtain rfl := Except.ok.inj decoded
    have digits := Number.toList_intText_neg positive
    refine ⟨_, negated?_int_eq_some_iff.mpr ⟨?_, rfl⟩, ?_⟩
    · rw [digits, spaced, Number.toList_intText_natCast, spaceless_gap (Number.space_not_mem_natDigits n)]
    · rw [Constant.literal_int_eq_ok_iff, Int.natAbs_neg, ← String.toList_inj, digits]
      exact ⟨natDigits_le_of_short short, by simp [Number.toList_intText_natCast]⟩
  · rw [decodeValue_float plain spelled float, canonical] at decoded
    obtain rfl := Except.ok.inj decoded
    obtain ⟨-, -, solid⟩ := canonicalFloat?_eq_some canonical
    have digits := toList_text_neg_of_canonical canonical unsigned
    refine ⟨_, negated?_float_eq_some_iff.mpr ⟨?_, rfl⟩, ?_⟩
    · rw [digits, spaced, spaceless_gap solid]
    · rw [Constant.literal, Except.ok.injEq, ← String.toList_inj, digits]
      simp

end Signed

/-- A minus sign before an operand that is decoded. -/
theorem decoded_of_signed (root : Tree) {source : Source} {tree operand : Tree} {text inner : String}
    {lead : List Char} (kind : tree.kind = "unary") (plain : tree.descendants "heredoc_beginning" = [])
    (spelled : Spelled source tree text) (short : ShortRuns text.toList)
    (found : tree.child? "operand" = some operand) (named : operand.label.named = true)
    (ends : text.toList = lead ++ inner.toList) (inside : Spelled source operand inner)
    (below : ∃ value, decodeValue source root operand = .ok value ∧ Decoded source operand inner value) :
    ∃ value, decodeValue source root tree = .ok value ∧ Decoded source tree text value := by
  obtain ⟨value, decoded, shape⟩ := below
  rw [decodeValue_unary plain spelled kind found]
  by_cases signed : text.toList.head? = some '-'
  · rw [if_pos signed, decoded, Except.ok_bind, orKeep_of_given spelled.given]
    refine ⟨_, rfl, .inr ⟨fun digits negated => ?_, fun unnegated => ?_⟩, fun _ _ => .inr signed,
      fun _ _ => .inr signed⟩
    · obtain ⟨opposite, negates, literal⟩ :=
        found_of_negated found inside.text_eq root (descendants_of_child found named plain) inside
          (short.of_suffix ⟨lead, ends.symm⟩) decoded negated
      rw [negates]
      exact literal
    · cases negates : negated? text value with
      | none => rfl
      | some opposite =>
        exact absurd (negated_of_found found inside.text_eq kind ends signed shape negates).1 (unnegated inner)
  · rw [if_neg signed, keepSource_of_given spelled.given]
    refine ⟨_, rfl, .inr ⟨fun digits negated => absurd ?_ signed, fun _ => rfl⟩, by simp, by simp⟩
    obtain ⟨gap, spaced⟩ := negated.spaced
    rw [spaced]
    rfl

private theorem Suits.spelled {source : Source} {tree : Tree} {text : String} (suits : Suits source tree text) :
    Spelled source tree text := by
  cases suits <;> assumption

private theorem decoded_of_suits {source : Source} {tree : Tree} {text : String} (root : Tree)
    (suits : Suits source tree text) (plain : tree.descendants "heredoc_beginning" = [])
    (short : ShortRuns text.toList) :
    ∃ value, decodeValue source root tree = .ok value ∧ Decoded source tree text value := by
  induction suits with
  | plain spelled alone => exact decoded_of_alone root plain spelled short alone
  | @signed unit operand text inner lead spelled found named ends below ih =>
    by_cases kind : unit.kind = "unary"
    · refine decoded_of_signed root kind plain spelled short found named ends below.spelled ?_
      exact ih (descendants_of_child found named plain) (short.of_suffix ⟨_, ends.symm⟩)
    · exact decoded_of_alone root plain spelled short fun unary => absurd unary kind

/-- A right-hand side without heredocs, whose kind suits its text, is decoded; and strings apart, what is written
for its value is its text, without the spaces behind the minus sign of a number in decimal digits. -/
theorem literal_decodeValue {source : Source} {tree : Tree} {text : String} (root : Tree)
    (suits : Suits source tree text) (plain : tree.descendants "heredoc_beginning" = [])
    (short : ShortRuns text.toList) :
    ∃ value, decodeValue source root tree = .ok value ∧
      (tree.kind = "string" ∧ (∃ content, value = .str content) ∨ WrittenBack source tree text value) := by
  obtain ⟨value, decoded, shape⟩ := decoded_of_suits root suits plain short
  exact ⟨value, decoded, shape.written⟩

/-- The number behind a minus sign and a space. -/
def spacedOperand : Tree := .node { kind := "integer", start := 6, stop := 7, field := some "operand" } []

def spacedMinus : Tree :=
  .node { kind := "unary", start := 4, stop := 7, field := some "right" }
    [.node { kind := "-", start := 4, stop := 5, field := some "operator", named := false } [], spacedOperand]

def spacedSource : Source := .ofText "X = - 5\n"

/-- The space behind the sign is lost, and nothing else. -/
theorem literal_decodeValue_of_spaced :
    ∃ value, decodeValue spacedSource spacedMinus spacedMinus = .ok value ∧ value.literal = .ok "-5" := by
  have operandText : textOf spacedSource spacedOperand = .ok "5" := by decide +kernel
  have below : Spelled spacedSource spacedOperand "5" :=
    .of_kind operandText (by decide) (by decide)
  have spelled : Spelled spacedSource spacedMinus "- 5" :=
    .of_kind (by decide +kernel) (by decide) (by decide)
  have suits : Suits spacedSource spacedMinus "- 5" :=
    @Suits.signed _ _ spacedOperand _ "5" ['-', ' '] spelled rfl rfl rfl (.plain below (by decide))
  have short : ShortRuns "- 5".toList := by
    intro run inside digits
    have length := inside.length_le
    exact Nat.le_trans length (by decide)
  obtain ⟨value, decoded, ⟨string, -⟩ | written⟩ :=
    literal_decodeValue spacedMinus suits (by decide +kernel) short
  · exact absurd string (by decide)
  · refine ⟨value, decoded, written.negated "5" ⟨rfl, ⟨1, rfl⟩, spacedOperand, rfl, operandText, .inl ⟨rfl, 5, ?_⟩⟩⟩
    exact ⟨by decide, by decide +kernel⟩

end LiterateRuby.Ruby
