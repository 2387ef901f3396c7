import LiterateRuby.Text.Line

/-! # Headings and fences

A heading is one to three number signs at the start of a line, blanks and a title. A line that
starts with a fence, after blanks, opens or closes a fenced block; between the two no line is a
heading.
-/

namespace LiterateRuby.Literate

/-- A heading: its level, from one to three, and its title. -/
structure Heading where
  level : Nat
  title : List Char
  deriving DecidableEq, Repr

def isGap (c : Char) : Bool := c == ' ' || c == '\t'

/-- Number signs at the start of a line and the text after the blanks that follow them, if the line
has one to three signs, then blanks, then a character that is not blank. -/
def headingParts? (line : List Char) : Option (Nat × List Char) :=
  let level := (line.takeWhile (· == '#')).length
  let rest := line.dropWhile (· == '#')
  match rest with
  | gap :: _ =>
    if 1 ≤ level && level ≤ 3 && isGap gap then
      match rest.dropWhile isGap with
      | [] => none
      | first :: title => if Text.isBlank first then none else some (level, first :: title)
    else none
  | [] => none

/-- The heading that a line is outside fenced blocks. -/
def heading? (line : List Char) : Option Heading :=
  (headingParts? line).map fun (level, title) => ⟨level, Text.trimEnd title⟩

def backtickFence : List Char := List.replicate 3 (Char.ofNat 0x60)

def tildeFence : List Char := List.replicate 3 '~'

/-- Whether a line opens or closes a fenced block. -/
def isFence (line : List Char) : Bool :=
  let text := Text.trimStart line
  (Text.after? backtickFence text).isSome || (Text.after? tildeFence text).isSome

/-- A line of a text as read outside or inside fenced blocks. -/
inductive Line where
  | heading (heading : Heading)
  | content (text : List Char)
  deriving DecidableEq, Repr

/-- Reads lines one after the other; `fenced` says whether the first one is inside a fenced
block. -/
def scan (fenced : Bool) : List (List Char) → List Line
  | [] => []
  | line :: rest =>
    if isFence line then .content line :: scan (!fenced) rest
    else
      match fenced, heading? line with
      | false, some heading => .heading heading :: scan fenced rest
      | _, _ => .content line :: scan fenced rest

/-- Whether a line could be read as a heading. -/
def looksLikeHeading (line : List Char) : Bool := (headingParts? line).isSome

/-- A body without the fences around it, if fences are its first and last line and no other. -/
def unwrapFence (body : List Char) : List Char :=
  match Text.lines body with
  | first :: second :: rest =>
    let inner := (second :: rest).dropLast
    let last := (second :: rest).getLast?
    if isFence first && last.any isFence && !inner.any isFence then Text.trim (Text.unlines inner)
    else body
  | _ => body

def headings (lines : List Line) : List Heading :=
  lines.filterMap fun line => match line with
    | .heading heading => some heading
    | .content _ => none

end LiterateRuby.Literate
