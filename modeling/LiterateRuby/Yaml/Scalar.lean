import LiterateRuby.Yaml.Cursor
import LiterateRuby.Text.Utf8
import LiterateRuby.Text.Digit

/-! # Scalars in a block of data

The texts that scalars denote: plain scalars, scalars in single and in double quotes, and literal
and folded blocks. A line break inside a scalar that is not literal is folded into a space, empty
lines are kept.
-/

namespace LiterateRuby.Yaml.Scalar

open DataFormat (Fault)

def hexValue (cs : List Char) : Nat :=
  cs.foldl (fun value c =>
    let digit :=
      if c.isDigit then c.toNat - 48
      else if 'a' ≤ c then c.toNat - 87
      else c.toNat - 55
    value * 16 + digit) 0

def isHex (c : Char) : Bool := c.isDigit || ('a' ≤ c && c ≤ 'f') || ('A' ≤ c && c ≤ 'F')

/-- The characters that an escape of one letter stands for. -/
def escapes : List (Char × Nat) := [
  ('0', 0), ('a', 7), ('b', 8), ('t', 9), ('\t', 9), ('n', 10), ('v', 11), ('f', 12), ('r', 13),
  ('e', 27), (' ', 32), ('"', 34), ('\\', 92), ('/', 47), ('N', 0x85), ('_', 0xA0), ('L', 0x2028),
  ('P', 0x2029)]

/-- The number of digits of an escape by code. -/
def codeLengths : List (Char × Nat) := [('x', 2), ('u', 4), ('U', 8)]

/-- Empty lines inside a quoted scalar. -/
def quotedBreaks : Nat → Cursor → Except Fault (List Char × Cursor)
  | 0, _ => .error .malformed
  | fuel + 1, cursor =>
    if cursor.atMarker then .error .malformed
    else
      let cursor := cursor.skipWhile fun c => c == ' ' || c == '\t'
      if isBreak cursor.peek then do
        let (text, cursor) := cursor.lineBreak
        let (more, cursor) ← quotedBreaks fuel cursor
        return (text ++ more, cursor)
      else .ok ([], cursor)

/-- Blanks and line breaks inside a quoted scalar, folded. -/
def quotedBlanks (fuel : Nat) (cursor : Cursor) : Except Fault (List Char × Cursor) :=
  let blanks := cursor.span fun c => c == ' ' || c == '\t'
  let cursor := cursor.skip blanks.length
  if cursor.peek == '\x00' then .error .malformed
  else if isBreak cursor.peek then do
    let (text, cursor) := cursor.lineBreak
    let (breaks, cursor) ← quotedBreaks fuel cursor
    let folded :=
      if text != ['\n'] then text
      else if breaks.isEmpty then [' ']
      else []
    return (folded ++ breaks, cursor)
  else .ok (blanks, cursor)

/-- The character that an escape at the position stands for, or a line break that it hides. -/
def escape (fuel : Nat) (cursor : Cursor) : Except Fault (List Char × Cursor) :=
  let c := cursor.peek
  match escapes.lookup c, codeLengths.lookup c with
  | some code, _ => .ok ([Char.ofNat code], cursor.next)
  | none, some count =>
    let digits := cursor.next.rest.take count
    if digits.length = count && digits.all isHex then
      let code := hexValue digits
      if code < 0x110000 then .ok ([Char.ofNat code], cursor.skip (count + 1))
      else .error (if code < 0x80000000 then valueError else overflowError)
    else .error .malformed
  | none, none =>
    if isBreak c then
      let (_, cursor) := cursor.lineBreak
      quotedBreaks fuel cursor
    else .error .malformed

/-- Whether a character of a quoted scalar stands for itself wherever it is. -/
def isOrdinary (c : Char) : Bool := !(c == '\'' || c == '"' || c == '\\' || isBlankOrEnd c)

def quotedRest (double : Bool) : Nat → Cursor → Except Fault (List Char × Cursor)
  | 0, _ => .error .malformed
  | fuel + 1, cursor =>
    let c := cursor.peek
    let continueWith (part : Except Fault (List Char × Cursor)) := do
      let (text, cursor) ← part
      let (more, cursor) ← quotedRest double fuel cursor
      return (text ++ more, cursor)
    if isOrdinary c then
      let text := cursor.span isOrdinary
      continueWith (.ok (text, cursor.skip text.length))
    else if double then
      if c == '"' then .ok ([], cursor.next)
      else if c == '\'' then continueWith (.ok ([c], cursor.next))
      else if c == '\\' then continueWith (escape fuel cursor.next)
      else continueWith (quotedBlanks fuel cursor)
    else
      if c == '\'' then
        if cursor.peek 1 == '\'' then continueWith (.ok ([c], cursor.skip 2))
        else .ok ([], cursor.next)
      else if c == '"' || c == '\\' then continueWith (.ok ([c], cursor.next))
      else continueWith (quotedBlanks fuel cursor)

def quoted (cursor : Cursor) : Except Fault (List Char × Cursor) :=
  quotedRest (cursor.peek == '"') (2 * cursor.rest.length + 2) cursor.next

/-- Whether a plain scalar stops before the character some places ahead. -/
def stopsPlain (inFlow : Bool) (cursor : Cursor) (ahead : Nat) : Bool :=
  let c := cursor.peek ahead
  let following := cursor.peek (ahead + 1)
  isBlankOrEnd c ||
    (c == ':' &&
      (isBlankOrEnd following ||
        (inFlow && [',', '[', ']', '\x7b', '\x7d'].contains following))) ||
    (inFlow && [',', '?', '[', ']', '\x7b', '\x7d'].contains c)

/-- The number of characters before a plain scalar stops. -/
def plainLength (inFlow : Bool) : Nat → Cursor → Nat → Nat
  | 0, _, ahead => ahead
  | fuel + 1, cursor, ahead =>
    if stopsPlain inFlow cursor ahead then ahead else plainLength inFlow fuel cursor (ahead + 1)

/-- Spaces and empty lines after the first line break inside a plain scalar; nothing if a document
marker follows. -/
def plainBreaks : Nat → Cursor → Option (List Char) × Cursor
  | 0, cursor => (none, cursor)
  | fuel + 1, cursor =>
    if cursor.peek == ' ' then plainBreaks fuel cursor.next
    else if isBreak cursor.peek then
      let (text, cursor) := cursor.lineBreak
      if cursor.atMarker then (none, cursor)
      else
        let (more, cursor) := plainBreaks fuel cursor
        (more.map (text ++ ·), cursor)
    else (some [], cursor)

/-- What stands between two parts of a plain scalar, folded; nothing if the scalar ends here. The
flag says whether a line ended. -/
def plainGap (fuel : Nat) (cursor : Cursor) : List Char × Bool × Cursor :=
  let blanks := cursor.span (· == ' ')
  let cursor := cursor.skip blanks.length
  if isBreak cursor.peek then
    let (text, cursor) := cursor.lineBreak
    if cursor.atMarker then ([], true, cursor)
    else
      match plainBreaks fuel cursor with
      | (none, cursor) => ([], true, cursor)
      | (some breaks, cursor) =>
        let folded :=
          if text != ['\n'] then text
          else if breaks.isEmpty then [' ']
          else []
        (folded ++ breaks, true, cursor)
  else (blanks, false, cursor)

/-- A plain scalar: its text, whether the last gap ended a line, and the position after it. -/
structure Plain where
  text : List Char
  endsLine : Bool
  cursor : Cursor

/-- The parts of a plain scalar from a position on; `gap` is what stands before it. -/
def plainFrom (inFlow : Bool) (indent : Int) : Nat → List Char → Bool → Cursor → Plain
  | 0, _, endsLine, cursor => ⟨[], endsLine, cursor⟩
  | fuel + 1, gap, endsLine, cursor =>
    if cursor.peek == '#' then ⟨[], endsLine, cursor⟩
    else
      let length := plainLength inFlow cursor.rest.length cursor 0
      if length = 0 then ⟨[], endsLine, cursor⟩
      else
        let text := gap ++ cursor.rest.take length
        let (next, endsLine, cursor) := plainGap (cursor.rest.length + 1) (cursor.skip length)
        if next.isEmpty || cursor.peek == '#' || (!inFlow && cursor.column < indent) then
          ⟨text, endsLine, cursor⟩
        else
          let more := plainFrom inFlow indent fuel next endsLine cursor
          { more with text := text ++ more.text }

def plain (inFlow : Bool) (indent : Int) (cursor : Cursor) : Plain :=
  plainFrom inFlow indent (cursor.rest.length + 1) [] false cursor

/-- What happens to the line breaks at the end of a block scalar. -/
inductive Chomping where
  | strip
  | clip
  | keep
  deriving DecidableEq, Repr

/-- The indicators after the sign of a block scalar: chomping and explicit indentation, in either
order. -/
def blockIndicators (cursor : Cursor) : Except Fault (Chomping × Option Nat × Cursor) := do
  let chomping? (cursor : Cursor) : Option (Chomping × Cursor) :=
    if cursor.peek == '+' then some (.keep, cursor.next)
    else if cursor.peek == '-' then some (.strip, cursor.next)
    else none
  let increment? (cursor : Cursor) : Except Fault (Option Nat × Cursor) :=
    if cursor.peek.isDigit then
      if cursor.peek == '0' then .error .malformed
      else .ok (some (cursor.peek.toNat - 48), cursor.next)
    else .ok (none, cursor)
  let (chomping, increment, cursor) ← match chomping? cursor with
    | some (chomping, cursor) => do
      let (increment, cursor) ← increment? cursor
      pure (chomping, increment, cursor)
    | none => do
      let (increment, cursor) ← increment? cursor
      match increment, chomping? cursor with
      | some _, some (chomping, cursor) => pure (chomping, increment, cursor)
      | _, _ => pure (Chomping.clip, increment, cursor)
  if isSpaceOrEnd cursor.peek then return (chomping, increment, cursor) else throw .malformed

/-- The rest of a line that holds nothing but blanks and a comment. -/
def ignoredLine (cursor : Cursor) : Except Fault Cursor :=
  let cursor := cursor.skipWhile (· == ' ')
  let cursor := if cursor.peek == '#' then cursor.skipWhile (!isEnd ·) else cursor
  if isEnd cursor.peek then .ok cursor.lineBreak.2 else .error .malformed

/-- Empty lines at the start of a block scalar, the greatest column among them, and the position of
the first line with contents. -/
def blockIndentation : Nat → Nat → Cursor → List Char × Nat × Cursor
  | 0, widest, cursor => ([], widest, cursor)
  | fuel + 1, widest, cursor =>
    if cursor.peek == ' ' then
      blockIndentation fuel (max widest cursor.next.column) cursor.next
    else if isBreak cursor.peek then
      let (text, cursor) := cursor.lineBreak
      let (more, widest, cursor) := blockIndentation fuel widest cursor
      (text ++ more, widest, cursor)
    else ([], widest, cursor)

/-- The position after the indentation, or before the first character that is not a space. -/
def skipIndent (indent : Nat) : Nat → Cursor → Cursor
  | 0, cursor => cursor
  | fuel + 1, cursor =>
    if cursor.column < indent && cursor.peek == ' ' then skipIndent indent fuel cursor.next
    else cursor

/-- Empty lines inside a block scalar. -/
def blockBreaks (indent : Nat) : Nat → Cursor → List Char × Cursor
  | 0, cursor => ([], cursor)
  | fuel + 1, cursor =>
    let cursor := skipIndent indent indent cursor
    if isBreak cursor.peek then
      let (text, cursor) := cursor.lineBreak
      let (more, cursor) := blockBreaks indent fuel cursor
      (text ++ more, cursor)
    else ([], cursor)

def isSpaceOrTab (c : Char) : Bool := c == ' ' || c == '\t'

/-- The lines of a block scalar. The result is the text up to the last line, the line break after
it, the empty lines after that, and the position. -/
def blockLines (folded : Bool) (indent : Nat) :
    Nat → List Char → Cursor → List Char × List Char × List Char × Cursor
  | 0, breaks, cursor => ([], [], breaks, cursor)
  | fuel + 1, breaks, cursor =>
    if cursor.column = indent && cursor.peek != '\x00' then
      let startsPlain := !isSpaceOrTab cursor.peek
      let line := cursor.span (!isEnd ·)
      let (ending, cursor) := (cursor.skip line.length).lineBreak
      let (nextBreaks, cursor) := blockBreaks indent (cursor.rest.length + 1) cursor
      if cursor.column = indent && cursor.peek != '\x00' then
        let joint :=
          if folded && ending == ['\n'] && startsPlain && !isSpaceOrTab cursor.peek then
            if nextBreaks.isEmpty then [' '] else []
          else ending
        let (more, rest) := blockLines folded indent fuel nextBreaks cursor
        (breaks ++ line ++ joint ++ more, rest)
      else (breaks ++ line, ending, nextBreaks, cursor)
    else ([], [], breaks, cursor)

/-- The literal or folded block at the position, inside a collection of the given indentation. -/
def block (parentIndent : Int) (cursor : Cursor) : Except Fault (List Char × Cursor) := do
  let folded := cursor.peek == '>'
  let (chomping, increment, cursor) ← blockIndicators cursor.next
  let cursor ← ignoredLine cursor
  let least := (max (parentIndent + 1) 1).toNat
  let fuel := cursor.rest.length + 1
  let (breaks, indent, cursor) := match increment with
    | none =>
      let (breaks, widest, cursor) := blockIndentation fuel 0 cursor
      (breaks, max least widest, cursor)
    | some increment =>
      let indent := least + increment - 1
      let (breaks, cursor) := blockBreaks indent fuel cursor
      (breaks, indent, cursor)
  let (text, ending, trailing, cursor) := blockLines folded indent fuel breaks cursor
  let tail := match chomping with
    | .strip => []
    | .clip => ending
    | .keep => ending ++ trailing
  return (text ++ tail, cursor)

end LiterateRuby.Yaml.Scalar
