import LiterateRuby.Proofs.Constant
import LiterateRuby.Render.Ruby
import Mathlib.Data.List.Infix
import Mathlib.Tactic.Common

/-! # What quoted literals denote

Between double quotes a backslash takes the meaning from a backslash, a quote or a number sign behind it, and a
number sign opens code before a brace or the name of a variable. Between single quotes only a backslash and a
single quote can be escaped. `literals_denote` says which strings, and which names of required libraries, are
written as a literal that is closed at its end, holds no code and denotes them.
-/

namespace LiterateRuby.Ruby

/-! ## Reading a literal -/

/-- A piece of what stands between double quotes. -/
inductive Piece where
  /-- A character, as it is or behind a backslash. -/
  | char (c : Char)
  /-- A backslash and a character that has a meaning of its own behind one. -/
  | escape (c : Char)
  /-- The sign that opens code. -/
  | code
  deriving DecidableEq, Repr

def startsName (c : Char) : Bool := c.isAlpha || c == '_' || 0x80 ≤ c.toNat

/-- Whether an identifier stands at the start of a text. -/
def identifierAt (cs : List Char) : Bool := cs.head?.any startsName

/-- Whether a text starts with the name of an instance, class or global variable. -/
def namesVariable : List Char → Bool
  | '@' :: '@' :: rest => identifierAt rest
  | '@' :: rest => identifierAt rest
  | '$' :: rest => identifierAt rest
  | _ => false

/-- Whether a number sign opens code before a text. -/
def opensCode (rest : List Char) : Bool := rest.head? == some '\x7b' || namesVariable rest

def escaped (c : Char) : Piece := if c = '\\' ∨ c = '"' ∨ c = '#' then .char c else .escape c

/-- Puts something before what was read. -/
def prepend (piece : α) (read : Option (List α × List Char)) : Option (List α × List Char) :=
  read.map fun (pieces, rest) => (piece :: pieces, rest)

/-- What is read up to the closing double quote, and what stands behind it. -/
def doubleQuoted : List Char → Option (List Piece × List Char)
  | [] => none
  | '"' :: rest => some ([], rest)
  | ['\\'] => none
  | '\\' :: next :: rest => prepend (escaped next) (doubleQuoted rest)
  | c :: rest => prepend (if c = '#' ∧ opensCode rest then .code else .char c) (doubleQuoted rest)

/-- What is read up to the closing single quote, and what stands behind it. -/
def singleQuoted : List Char → Option (List Char × List Char)
  | [] => none
  | '\'' :: rest => some ([], rest)
  | '\\' :: '\\' :: rest => prepend '\\' (singleQuoted rest)
  | '\\' :: '\'' :: rest => prepend '\'' (singleQuoted rest)
  | c :: rest => prepend c (singleQuoted rest)

/-- A quoted literal that is closed at its last character, holds no code and stands for a text. -/
def Denotes (literal cs : List Char) : Prop :=
  match literal with
  | '"' :: rest => doubleQuoted rest = some (cs.map .char, [])
  | '\'' :: rest => singleQuoted rest = some (cs, [])
  | _ => False

/-- A text in which a number sign stands before something. -/
def SignBefore (follows : List Char → Bool) (cs : List Char) : Prop :=
  ∃ before rest, cs = before ++ '#' :: rest ∧ follows rest = true

@[simp] theorem signBefore_nil (follows : List Char → Bool) : ¬SignBefore follows [] := by
  rintro ⟨before, rest, same, -⟩
  cases before <;> cases same

private theorem signBefore_cons {follows : List Char → Bool} {c : Char} {rest : List Char} :
    SignBefore follows (c :: rest) ↔ (c = '#' ∧ follows rest = true) ∨ SignBefore follows rest := by
  constructor
  · rintro ⟨before, behind, same, given⟩
    cases before with
    | nil =>
      obtain ⟨rfl, rfl⟩ := List.cons.inj same
      exact .inl ⟨rfl, given⟩
    | cons first before =>
      obtain ⟨rfl, rfl⟩ := List.cons.inj same
      exact .inr ⟨before, behind, rfl, given⟩
  · rintro (⟨rfl, given⟩ | ⟨before, behind, rfl, given⟩)
    · exact ⟨[], rest, rfl, given⟩
    · exact ⟨c :: before, behind, rfl, given⟩

private theorem doubleQuoted_cons {c : Char} (inner : c ≠ '"') (plain : c ≠ '\\') (rest : List Char) :
    doubleQuoted (c :: rest) =
      prepend (if c = '#' ∧ opensCode rest then .code else .char c) (doubleQuoted rest) := by
  rw [doubleQuoted] <;> simp [inner, plain]

/-! ## Code behind a number sign -/

private theorem namesVariable_of_other {c : Char} (sign : c ≠ '@') (global : c ≠ '$') (rest : List Char) :
    namesVariable (c :: rest) = false := by
  rw [namesVariable] <;> simp [sign, global]

private theorem namesVariable_single {c : Char} (once : c ≠ '@') (rest : List Char) :
    namesVariable ('@' :: c :: rest) = identifierAt (c :: rest) := by
  rw [namesVariable]
  rintro later same
  exact once (List.cons.inj same).1

/-- A way to write a text up to its closing quote: a backslash stands at most before a backslash, a quote or a
number sign. -/
structure Writes (write : List Char → List Char) : Prop where
  closed : write [] = ['"']
  ordinary : ∀ c rest, c ≠ '\\' → c ≠ '"' → c ≠ '#' → write (c :: rest) = c :: write rest
  starts : ∀ c rest, ∃ first more, write (c :: rest) = first :: more ∧
    (first = c ∨ first = '\\' ∧ (c = '\\' ∨ c = '"' ∨ c = '#'))

namespace Writes

variable {write : List Char → List Char}

private theorem identifierAt_eq (writes : Writes write) (cs : List Char) :
    identifierAt (write cs) = identifierAt cs := by
  cases cs with
  | nil =>
    rw [writes.closed]
    rfl
  | cons c rest =>
    obtain ⟨first, more, same, rfl | ⟨rfl, special⟩⟩ := writes.starts c rest
    · simp [identifierAt, same]
    · rw [same]
      rcases special with rfl | rfl | rfl <;> rfl

private theorem namesVariable_eq (writes : Writes write) (cs : List Char) :
    namesVariable (write cs) = namesVariable cs := by
  cases cs with
  | nil =>
    rw [writes.closed]
    rfl
  | cons c rest =>
    by_cases sign : c = '@'
    · subst sign
      rw [writes.ordinary _ _ (by decide) (by decide) (by decide)]
      cases rest with
      | nil =>
        rw [writes.closed]
        rfl
      | cons next more =>
        by_cases twice : next = '@'
        · subst twice
          rw [writes.ordinary _ _ (by decide) (by decide) (by decide)]
          exact writes.identifierAt_eq more
        · obtain ⟨first, later, same, start⟩ := writes.starts next more
          have once : first ≠ '@' := by
            rcases start with rfl | ⟨rfl, -⟩
            · exact twice
            · decide
          rw [namesVariable_single twice, ← writes.identifierAt_eq (next :: more), same]
          exact namesVariable_single once _
    · by_cases global : c = '$'
      · subst global
        rw [writes.ordinary _ _ (by decide) (by decide) (by decide)]
        exact writes.identifierAt_eq rest
      · obtain ⟨first, later, same, rfl | ⟨rfl, -⟩⟩ := writes.starts c rest
        · rw [same, namesVariable_of_other sign global, namesVariable_of_other sign global]
        · rw [same, namesVariable_of_other sign global, namesVariable_of_other (by decide) (by decide)]

/-- What opens code in a text opens code where the text is written, and nothing else does. -/
theorem opensCode_eq (writes : Writes write) (cs : List Char) : opensCode (write cs) = opensCode cs := by
  have brace : ((write cs).head? == some '\x7b') = (cs.head? == some '\x7b') := by
    cases cs with
    | nil =>
      rw [writes.closed]
      rfl
    | cons c rest =>
      obtain ⟨first, later, same, rfl | ⟨rfl, special⟩⟩ := writes.starts c rest
      · rw [same, List.head?_cons, List.head?_cons]
      · rw [same]
        rcases special with rfl | rfl | rfl <;> rfl
  rw [opensCode, opensCode, brace, writes.namesVariable_eq]

end Writes

/-! ## Strings -/

/-- How the literal of a string is read: every character as itself, but for a number sign before the name of a
variable. -/
def stringPieces : List Char → List Piece
  | [] => []
  | c :: rest => (if c = '#' ∧ namesVariable rest then .code else .char c) :: stringPieces rest

private theorem stringPieces_eq_iff (cs : List Char) :
    stringPieces cs = cs.map .char ↔ ¬SignBefore namesVariable cs := by
  induction cs with
  | nil => simp [stringPieces]
  | cons c rest ih =>
    rw [stringPieces, List.map_cons, List.cons.injEq, ih, signBefore_cons]
    by_cases opens : c = '#' ∧ namesVariable rest <;> simp [opens]

private theorem writes_escape : Writes fun cs => Constant.escape cs ++ ['"'] where
  closed := rfl
  ordinary c rest plain inner unsigned := by
    rw [Constant.escape] <;> simp [plain, inner, unsigned]
  starts c rest := by
    rw [Constant.escape.eq_def]
    split
    · next same => cases same
    · next later same =>
      obtain ⟨rfl, rfl⟩ := List.cons.inj same
      exact ⟨_, _, rfl, .inr ⟨rfl, by simp⟩⟩
    · next first later _ same =>
      obtain ⟨rfl, rfl⟩ := List.cons.inj same
      split_ifs with special
      · exact ⟨_, _, rfl, .inr ⟨rfl, by tauto⟩⟩
      · exact ⟨_, _, rfl, .inl rfl⟩

private theorem doubleQuoted_escape (cs : List Char) :
    doubleQuoted (Constant.escape cs ++ ['"']) = some (stringPieces cs, []) := by
  fun_induction Constant.escape cs with
  | case1 => simp [doubleQuoted, stringPieces]
  | case2 rest ih => simp [doubleQuoted, ih, stringPieces, prepend, escaped, namesVariable]
  | case3 c rest unmarked special ih =>
    have unlike : c ≠ '#' := by rintro rfl; simp at special
    have known : escaped c = .char c := by rcases special with rfl | rfl <;> rfl
    simp [doubleQuoted, ih, stringPieces, prepend, known, unlike]
  | case4 c rest unmarked ordinary ih =>
    obtain ⟨plain, inner⟩ := not_or.mp ordinary
    have code : (c = '#' ∧ opensCode (Constant.escape rest ++ ['"'])) ↔ c = '#' ∧ namesVariable rest := by
      apply and_congr_right
      rintro rfl
      have brace : (rest.head? == some '\x7b') = false := by
        cases rest with
        | nil => rfl
        | cons next more =>
          have unlike : next ≠ '\x7b' := fun brace => unmarked more rfl (by rw [brace])
          simp [unlike]
      rw [writes_escape.opensCode_eq rest, opensCode, brace, Bool.false_or]
    rw [List.cons_append, doubleQuoted_cons inner plain, ih, stringPieces]
    simp only [code, prepend, Option.map_some]

/-- The literal of a string is closed at its end, whatever the string is. -/
theorem doubleQuoted_stringLiteral (value : String) :
    ∃ rest, (Constant.stringLiteral value).toList = '"' :: rest ∧
      doubleQuoted rest = some (stringPieces value.toList, []) :=
  ⟨Constant.escape value.toList ++ ['"'], by simp [Constant.stringLiteral], doubleQuoted_escape value.toList⟩

private theorem denotes_stringLiteral_iff (value : String) :
    Denotes (Constant.stringLiteral value).toList value.toList ↔ ¬SignBefore namesVariable value.toList := by
  obtain ⟨rest, same, read⟩ := doubleQuoted_stringLiteral value
  rw [same, ← stringPieces_eq_iff]
  simp [Denotes, read]

/-! ## Names of libraries -/

private theorem prepend_eq_some_iff {piece : α} {read : Option (List α × List Char)} {pieces : List α}
    {rest : List Char} :
    prepend piece read = some (pieces, rest) ↔ ∃ others, pieces = piece :: others ∧ read = some (others, rest) := by
  cases read with
  | none => simp [prepend]
  | some read =>
    obtain ⟨others, behind⟩ := read
    simp [prepend, eq_comm]

/-- No more pieces are read than there are characters. -/
theorem length_of_doubleQuoted {cs rest : List Char} {pieces : List Piece}
    (read : doubleQuoted cs = some (pieces, rest)) : pieces.length + rest.length < cs.length := by
  fun_induction doubleQuoted cs generalizing pieces with
  | case1 => cases read
  | case2 =>
    cases read
    simp
  | case3 => cases read
  | case4 next more ih =>
    obtain ⟨others, rfl, later⟩ := prepend_eq_some_iff.mp read
    have fewer := ih later
    simp only [List.length_cons]
    omega
  | case5 c more _ _ _ ih =>
    obtain ⟨others, rfl, later⟩ := prepend_eq_some_iff.mp read
    have fewer := ih later
    simp only [List.length_cons]
    omega

private theorem length_of_singleQuoted {cs rest content : List Char}
    (read : singleQuoted cs = some (content, rest)) : content.length + rest.length < cs.length := by
  fun_induction singleQuoted cs generalizing content with
  | case1 => cases read
  | case2 =>
    cases read
    simp
  | case3 more ih | case4 more ih | case5 c more _ _ _ ih =>
    obtain ⟨others, rfl, later⟩ := prepend_eq_some_iff.mp read
    have fewer := ih later
    simp only [List.length_cons]
    omega

private theorem writes_verbatim : Writes fun cs => cs ++ ['"'] where
  closed := rfl
  ordinary _ _ _ _ _ := rfl
  starts c rest := ⟨c, rest ++ ['"'], rfl, .inl rfl⟩

/-- What is written between double quotes as it is stands for itself exactly if it holds neither a quote nor a
backslash, and opens no code. -/
theorem doubleQuoted_verbatim_iff (cs : List Char) :
    doubleQuoted (cs ++ ['"']) = some (cs.map .char, []) ↔
      '"' ∉ cs ∧ '\\' ∉ cs ∧ ¬SignBefore opensCode cs := by
  induction cs with
  | nil => simp [doubleQuoted]
  | cons c rest ih =>
    by_cases closing : c = '"'
    · subst closing
      simp [doubleQuoted]
    · by_cases backslash : c = '\\'
      · subst backslash
        simp only [List.mem_cons, true_or, not_true_eq_false, false_and, and_false, iff_false]
        -- a backslash takes the character behind it along, so that there are too few pieces
        intro read
        cases rest with
        | nil => cases read
        | cons next more =>
          rw [List.cons_append, List.cons_append, doubleQuoted, prepend_eq_some_iff] at read
          obtain ⟨others, same, later⟩ := read
          have fewer := length_of_doubleQuoted later
          have count := congrArg List.length same
          simp only [List.length_map, List.length_cons, List.length_append, List.length_nil] at fewer count
          omega
      · rw [List.cons_append, doubleQuoted_cons closing backslash, writes_verbatim.opensCode_eq rest,
          prepend_eq_some_iff, signBefore_cons]
        by_cases opens : c = '#' ∧ opensCode rest <;>
          simp [opens, ih, Ne.symm closing, Ne.symm backslash]

private theorem singleQuoted_cons {c : Char} {rest : List Char} (inner : c ≠ '\'')
    (plain : c = '\\' → ∀ next ∈ rest.head?, next ≠ '\\' ∧ next ≠ '\'') :
    singleQuoted (c :: rest) = prepend c (singleQuoted rest) := by
  rw [singleQuoted]
  · exact inner
  · rintro more rfl rfl
    exact (plain rfl '\\' rfl).1 rfl
  · rintro more rfl rfl
    exact (plain rfl '\'' rfl).2 rfl

/-- What is written between single quotes as it is, without a single quote, stands for itself exactly if no two
backslashes stand side by side in it and none at its end. -/
theorem singleQuoted_verbatim_iff {cs : List Char} (unquoted : '\'' ∉ cs) :
    singleQuoted (cs ++ ['\'']) = some (cs, []) ↔ ¬['\\', '\\'] <:+: cs ∧ cs.getLast? ≠ some '\\' := by
  induction cs with
  | nil => simp [singleQuoted]
  | cons c rest ih =>
    obtain ⟨first, later⟩ := not_or.mp (mt List.mem_cons.mpr unquoted)
    cases rest with
    | nil =>
      by_cases backslash : c = '\\'
      · subst backslash
        simp [singleQuoted, prepend]
      · rw [List.cons_append, singleQuoted_cons (Ne.symm first) (fun same => absurd same backslash)]
        simp [singleQuoted, prepend, List.infix_cons_iff, backslash]
    | cons next more =>
      by_cases pair : c = '\\' ∧ next = '\\'
      · obtain ⟨rfl, rfl⟩ := pair
        have doubled : ['\\', '\\'] <:+: '\\' :: '\\' :: more := ⟨[], more, rfl⟩
        simp only [doubled, not_true_eq_false, false_and, iff_false]
        -- the second backslash is taken along, so that what is read is too short
        intro read
        rw [List.cons_append, List.cons_append, singleQuoted, prepend_eq_some_iff] at read
        obtain ⟨others, same, behind⟩ := read
        have fewer := length_of_singleQuoted behind
        have count := congrArg List.length same
        simp only [List.length_cons, List.length_append, List.length_nil] at fewer count
        omega
      · have plain : c = '\\' → ∀ other ∈ (next :: more ++ ['\'']).head?, other ≠ '\\' ∧ other ≠ '\'' := by
          rintro rfl other member
          obtain rfl : next = other := by simpa using member
          exact ⟨fun same => pair ⟨rfl, same⟩, fun same => later (same ▸ List.mem_cons_self)⟩
        have single : ¬['\\', '\\'] <+: c :: next :: more := by
          rintro ⟨behind, same⟩
          simp only [List.cons_append, List.cons.injEq] at same
          exact pair ⟨same.1.symm, same.2.1.symm⟩
        rw [List.cons_append, singleQuoted_cons (Ne.symm first) plain, prepend_eq_some_iff]
        have whole : ['\\', '\\'] <:+: c :: next :: more ↔ ['\\', '\\'] <:+: next :: more := by
          rw [List.infix_cons_iff]
          exact or_iff_right single
        rw [List.getLast?_cons_cons, whole, ← ih later]
        simp

/-- The statement that requires a library holds its name between quotes as it is. -/
theorem requireLine_eq (name : String) :
    Render.requireLine name =
      "require " ++ String.ofList
        (if '\'' ∈ name.toList then '"' :: name.toList ++ ['"'] else '\'' :: name.toList ++ ['\'']) := by
  unfold Render.requireLine
  apply String.toList_injective
  split_ifs with quoted single single <;> simp_all

/-- The literal of a string is double-quoted, closed at its last character and read as the string, but for the
number signs before names of variables, which open code; so it denotes the string exactly if there are none. The
name of a required library stands between quotes as it is, between double quotes if it holds a single quote. It is
denoted there exactly if there is nothing in it that its quotes take for something else: between double quotes no
such quote, no backslash and no code, between single quotes no two backslashes side by side and none at the end. -/
theorem literals_denote (value name : String) :
    (∃ rest, (Constant.stringLiteral value).toList = '"' :: rest ∧
      doubleQuoted rest = some (stringPieces value.toList, [])) ∧
    (Denotes (Constant.stringLiteral value).toList value.toList ↔ ¬SignBefore namesVariable value.toList) ∧
    ∃ literal, Render.requireLine name = "require " ++ String.ofList literal ∧
      (Denotes literal name.toList ↔
        if '\'' ∈ name.toList then
          '"' ∉ name.toList ∧ '\\' ∉ name.toList ∧ ¬SignBefore opensCode name.toList
        else ¬['\\', '\\'] <:+: name.toList ∧ name.toList.getLast? ≠ some '\\') := by
  refine ⟨doubleQuoted_stringLiteral value, denotes_stringLiteral_iff value, _, requireLine_eq name, ?_⟩
  split_ifs with quoted
  · exact doubleQuoted_verbatim_iff name.toList
  · exact singleQuoted_verbatim_iff quoted

/-- A string that names an instance variable behind a number sign is written as code, and the name of a library
that ends with a backslash leaves its literal open. -/
theorem literal_opens_code :
    ¬Denotes (Constant.stringLiteral "#@x").toList "#@x".toList ∧
      Render.requireLine "a\\" = "require 'a\\'" ∧ singleQuoted "a\\'".toList = none := by
  refine ⟨fun denoted => ?_, by decide, by decide⟩
  have read : doubleQuoted "#@x\"".toList = some ("#@x".toList.map .char, []) := denoted
  revert read
  decide

end LiterateRuby.Ruby
