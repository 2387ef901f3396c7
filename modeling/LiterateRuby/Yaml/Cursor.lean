import LiterateRuby.DataFormat

/-! # Reading position in a block of data

A cursor is the text that is left with its place: the number of characters read, and line and
column. The text is taken to end with a NUL character, which no text contains.
-/

namespace LiterateRuby.Yaml

open DataFormat (Fault)

/-- A text has no value of the type that is asked for. -/
def valueError : Fault := .raised "ValueError"

/-- A number is beyond the range of its type. -/
def overflowError : Fault := .raised "OverflowError"

/-- The text that is left, and where it starts. -/
structure Cursor where
  rest : List Char
  index : Nat := 0
  line : Nat := 0
  column : Nat := 0

def isBreak (c : Char) : Bool :=
  c == '\r' || c == '\n' || c.toNat == 0x85 || c.toNat == 0x2028 || c.toNat == 0x2029

def isEnd (c : Char) : Bool := c.toNat == 0 || isBreak c

def isBlankOrEnd (c : Char) : Bool := c == ' ' || c == '\t' || isEnd c

def isSpaceOrEnd (c : Char) : Bool := c == ' ' || isEnd c

/-- Whether a character may stand in the name of an anchor, a handle or a directive. -/
def isNameChar (c : Char) : Bool := c.isAlphanum || c == '-' || c == '_'

namespace Cursor

/-- The character a number of places ahead. -/
def peek (cursor : Cursor) (ahead : Nat := 0) : Char := (cursor.rest[ahead]?).getD '\x00'

def next (cursor : Cursor) : Cursor :=
  match cursor.rest with
  | [] => cursor
  | c :: rest =>
    let endsLine := isBreak c && !(c == '\r' && rest.head? == some '\n')
    { rest
      index := cursor.index + 1
      line := if endsLine then cursor.line + 1 else cursor.line
      column :=
        if endsLine then 0
        else if c.toNat == 0xFEFF then cursor.column
        else cursor.column + 1 }

def skip (cursor : Cursor) : Nat → Cursor
  | 0 => cursor
  | count + 1 => skip cursor.next count

/-- The position after all characters at the start that satisfy a test. -/
def skipWhile (cursor : Cursor) (test : Char → Bool) : Cursor :=
  cursor.skip (cursor.rest.takeWhile test).length

def span (cursor : Cursor) (test : Char → Bool) : List Char := cursor.rest.takeWhile test

/-- The line break at the position, as a line feed unless it separates lines or paragraphs, and the
position after it. -/
def lineBreak (cursor : Cursor) : List Char × Cursor :=
  match cursor.rest with
  | '\r' :: '\n' :: _ => (['\n'], cursor.skip 2)
  | c :: _ =>
    if c == '\r' || c == '\n' || c.toNat == 0x85 then (['\n'], cursor.next)
    else if isBreak c then ([c], cursor.next)
    else ([], cursor)
  | [] => ([], cursor)

/-- Whether a document marker, three equal characters and then a blank or an end, is at the
position. -/
def atMarker (cursor : Cursor) : Bool :=
  (cursor.rest.take 3 == ['-', '-', '-'] || cursor.rest.take 3 == ['.', '.', '.']) &&
    isBlankOrEnd (cursor.peek 3)

end Cursor

end LiterateRuby.Yaml
