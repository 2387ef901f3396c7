import LiterateRuby.Yaml.Tag
import LiterateRuby.Yaml.Cursor
import LiterateRuby.Text.Quoted

/-! # Writing a block of data

A block is a mapping from names to texts, lists of texts and mappings of texts. A text is written
plain if it reads back as the same text, in single quotes if it has no special characters, and in
double quotes otherwise. Lines are folded at a space after the eightieth column.
-/

namespace LiterateRuby.Yaml

open DataFormat (Item)

namespace Write

/-- The column after which a line is folded. -/
def width : Nat := 80

inductive Style where
  | plain
  | single
  | double
  deriving DecidableEq, Repr

/-- Whether a character is a line break of a written text. -/
def isTextBreak (c : Char) : Bool :=
  c == '\n' || c.toNat == 0x85 || c.toNat == 0x2028 || c.toNat == 0x2029

/-- Whether a character must be escaped wherever it stands. -/
def isSpecial (c : Char) : Bool := !(c == '\n' || (0x20 ≤ c.toNat && c.toNat ≤ 0x7E))

/-- Characters that are followed by a check of what they might begin, with what precedes and follows
them. -/
structure Place where
  /-- Whether the character is the first one. -/
  first : Bool
  /-- Whether a blank or the start precedes it. -/
  afterBlank : Bool
  char : Char
  /-- Whether a blank or the end follows it. -/
  beforeBlank : Bool

/-- The places of a text. -/
def placesFrom (first afterBlank : Bool) : List Char → List Place
  | [] => []
  | c :: rest =>
    let beforeBlank := match rest with
      | [] => true
      | following :: _ => isBlankOrEnd following
    ⟨first, afterBlank, c, beforeBlank⟩ :: placesFrom false (isBlankOrEnd c) rest

/-- Whether a character could be taken for an indicator where it stands. -/
def isIndicator (place : Place) : Bool :=
  let c := place.char
  if place.first then
    "#,[]\x7b\x7d&*!|>'\"%@".toList.contains c || c.toNat == 0x60 ||
      ((c == '?' || c == ':' || c == '-') && place.beforeBlank)
  else (c == ':' && place.beforeBlank) || (c == '#' && place.afterBlank)

/-- Whether a text could be taken for something else if written plain. -/
def hasIndicators (cs : List Char) : Bool :=
  cs.take 3 == ['-', '-', '-'] || cs.take 3 == ['.', '.', '.'] ||
    (placesFrom true true cs).any isIndicator

def hasPair (test : Char → Char → Bool) : List Char → Bool
  | a :: b :: rest => test a b || hasPair test (b :: rest)
  | _ => false

/-- Whether a text starts or ends with a space or a line break. -/
def hasOuterBlank (cs : List Char) : Bool :=
  let isOuter (c : Char) : Bool := c == ' ' || isTextBreak c
  (cs.head?.map isOuter).getD false || (cs.getLast?.map isOuter).getD false

/-- Whether a text may be written plain, its type apart. -/
def mayBePlain (cs : List Char) : Bool :=
  !(hasOuterBlank cs || cs.any isTextBreak || cs.any isSpecial || hasIndicators cs)

/-- Whether a text may be written in single quotes. -/
def mayBeSingle (cs : List Char) : Bool :=
  !(cs.any isSpecial || hasPair (fun a b => isTextBreak a && b == ' ') cs ||
    hasPair (fun a b => a == ' ' && isTextBreak b) cs)

def styleOf (text : String) : Style :=
  let cs := text.toList
  if (cs.isEmpty || mayBePlain cs) && Tag.ofPlain text = .str then .plain
  else if mayBeSingle cs then .single
  else .double

def newLine (indent : Nat) : List Char := '\n' :: List.replicate indent ' '

/-- Where a scalar stands: the indentation of its further lines and whether it may have any. -/
structure Layout where
  indent : Nat
  split : Bool

/-- A plain or single-quoted text from a column on; `quote` doubles single quotes, `previous` is the
character before. A single space after the last column becomes a new line. -/
def foldedFrom (layout : Layout) (quote : Bool) (column : Nat) (previous : Option Char) :
    List Char → List Char
  | [] => []
  | c :: rest =>
    let following := rest.head?
    if c = ' ' then
      let isInner := !quote || (previous.isSome && !rest.isEmpty)
      if layout.split && width < column && isInner && previous != some ' ' && following != some ' ' then
        newLine layout.indent ++ foldedFrom layout quote layout.indent (some c) rest
      else c :: foldedFrom layout quote (column + 1) (some c) rest
    else if isTextBreak c then
      let opening := if previous.any isTextBreak then [] else ['\n']
      if following.any isTextBreak then
        opening ++ c :: foldedFrom layout quote 0 (some c) rest
      else
        opening ++ c :: List.replicate layout.indent ' ' ++
          foldedFrom layout quote layout.indent (some c) rest
    else if quote && c = '\'' then '\'' :: '\'' :: foldedFrom layout quote (column + 2) (some c) rest
    else c :: foldedFrom layout quote (column + 1) (some c) rest

/-- The letters of the escapes of one letter. -/
def escapeLetters : List (Nat × Char) := [
  (0, '0'), (7, 'a'), (8, 'b'), (9, 't'), (10, 'n'), (11, 'v'), (12, 'f'), (13, 'r'), (27, 'e'),
  (34, '"'), (92, '\\'), (0x85, 'N'), (0xA0, '_'), (0x2028, 'L'), (0x2029, 'P')]

/-- A hexadecimal number of a least width, in capital letters. -/
def capitalHex (digits n : Nat) : List Char := (Text.hex digits n).map Char.toUpper

/-- The escape of a character, if it needs one in double quotes. -/
def escape? (c : Char) : Option (List Char) :=
  let code := c.toNat
  if c = '"' ∨ c = '\\' ∨ code < 0x20 ∨ 0x7E < code then
    some <| '\\' :: match escapeLetters.lookup code with
      | some letter => [letter]
      | none =>
        if code ≤ 0xFF then 'x' :: capitalHex 2 code
        else if code ≤ 0xFFFF then 'u' :: capitalHex 4 code
        else 'U' :: capitalHex 8 code
  else none

/-- A double-quoted text from a column on. A line is broken before a space or after an escape; a
space at the start of a line is marked. -/
def escapedFrom (layout : Layout) (column : Nat) (first afterEscape : Bool) :
    List Char → List Char
  | [] => []
  | c :: rest =>
    let inner := layout.split && !first && !rest.isEmpty
    match escape? c with
    | some written =>
      let after := column + written.length
      if inner && width < after - 1 then
        let mark := if rest.head? == some ' ' then ['\\'] else []
        written ++ '\\' :: newLine layout.indent ++ mark ++
          escapedFrom layout (layout.indent + mark.length) false true rest
      else written ++ escapedFrom layout after false true rest
    | none =>
      if inner && (c = ' ' || afterEscape) && width < column then
        let mark := if c = ' ' then ['\\'] else []
        '\\' :: newLine layout.indent ++ mark ++
          c :: escapedFrom layout (layout.indent + mark.length + 1) false false rest
      else c :: escapedFrom layout (column + 1) false false rest

/-- A text as a scalar whose first character stands at a column. -/
def scalar (layout : Layout) (column : Nat) (text : String) : List Char :=
  match styleOf text with
  | .plain => foldedFrom layout false column none text.toList
  | .single => '\'' :: foldedFrom layout true (column + 1) none text.toList ++ ['\'']
  | .double => '"' :: escapedFrom layout (column + 1) true false text.toList ++ ['"']

/-- Whether a key is written before its colon without a mark of its own. -/
def isSimpleKey (key : String) : Bool :=
  !key.isEmpty && key.length + 5 < 128 && !key.toList.any isTextBreak

/-- An entry with a text as value, at an indentation. -/
def entry (indent : Nat) (key value : String) : List Char :=
  let margin := List.replicate indent ' '
  let inner := indent + 2
  if isSimpleKey key then
    let name := scalar ⟨inner, false⟩ indent key
    margin ++ name ++ [':', ' '] ++ scalar ⟨inner, true⟩ (indent + name.length + 2) value
  else
    margin ++ ['?', ' '] ++ scalar ⟨inner, true⟩ inner key ++ '\n' :: margin ++ [':', ' '] ++
      scalar ⟨inner, true⟩ inner value

def item (name : String) : Item → List (List Char)
  | .text value => [entry 0 name value]
  | .texts values =>
    (name.toList ++ [':']) :: values.map fun value => '-' :: ' ' :: scalar ⟨2, true⟩ 2 value
  | .entries pairs => (name.toList ++ [':']) :: pairs.map fun (key, value) => entry 2 key value

end Write

/-- The lines of a block of named items. The names are plain words. -/
def write (items : List (String × Item)) : List String :=
  let written := items.flatMap fun (name, value) => Write.item name value
  written.flatMap fun cs => Text.linesOf (String.ofList cs)

end LiterateRuby.Yaml
