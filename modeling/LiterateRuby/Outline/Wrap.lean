import LiterateRuby.Text.Line
import LiterateRuby.Text.Width

/-! # Text in a number of cells

A paragraph is cut into lines between words, each word keeping the blanks after it. A word that is
wider than a line is cut into pieces, or left whole to be shortened.
-/

namespace LiterateRuby.Outline

open Text

/-- A text cut before each character that is not blank and follows a blank. -/
def cutWords : List Char → List (List Char)
  | [] => []
  | c :: rest =>
    match cutWords rest with
    | [] => [[c]]
    | word :: more =>
      if isBlank c && !(word.head?.any isBlank) then [c] :: word :: more else (c :: word) :: more

/-- The words of a text, each with the blanks after it and the first with the blanks before it. -/
def words (cs : List Char) : List (List Char) :=
  match cutWords (cs.dropWhile isBlank) with
  | [] => []
  | word :: more => (cs.takeWhile isBlank ++ word) :: more

/-- A word cut into pieces that fit a width, when the first piece already has some characters. -/
def piecesAfter (width : Nat) (piece : List Char) : List Char → List (List Char)
  | [] => [piece]
  | c :: rest =>
    if width < cells piece + charCells c then piece :: piecesAfter width [c] rest
    else piecesAfter width (piece ++ [c]) rest

/-- A word cut into pieces that fit a width. -/
def pieces (width : Nat) (word : List Char) : List (List Char) := piecesAfter width [] word

/-- Lines that are being filled. -/
structure Filling where
  /-- The finished lines. -/
  done : List (List Char)
  /-- The line being filled. -/
  line : List Char
  /-- The cells that the line counts as taking. -/
  used : Nat
  /-- Whether any text came before. -/
  started : Bool

namespace Filling

def empty : Filling := ⟨[], [], 0, false⟩

def extend (filling : Filling) (text : List Char) : Filling :=
  { filling with
    line := filling.line ++ text
    used := filling.used + cells text
    started := filling.started || !text.isEmpty }

/-- Adds text at the start of a new line; the very first text needs no new line. -/
def breakBefore (filling : Filling) (text : List Char) : Filling :=
  if filling.started then ⟨filling.done ++ [filling.line], text, cells text, true⟩
  else ⟨filling.done, text, cells text, !text.isEmpty⟩

/-- Adds a word, on the line if it fits there. A word that fits no line is cut where folding is
allowed. -/
def addWord (fold : Bool) (width : Nat) (filling : Filling) (word : List Char) : Filling :=
  let length := cells (trimEnd word)
  if filling.used + length ≤ width then filling.extend word
  else if fold && width < length then (pieces width word).foldl breakBefore filling
  else filling.breakBefore word

def lines (filling : Filling) : List (List Char) := filling.done ++ [filling.line]

end Filling

/-- The lines of a paragraph. A paragraph of blanks is one line. -/
def fill (fold : Bool) (width : Nat) (cs : List Char) : List (List Char) :=
  match words cs with
  | [] => [cs]
  | found => (found.foldl (Filling.addWord fold width) Filling.empty).lines

/-- A line without blanks at its end, as far as they make it longer than a width. -/
def cropBlanks (width : Nat) (line : List Char) : List Char :=
  let blanks := line.length - (trimEnd line).length
  line.take (line.length - min blanks (line.length - width))

/-- As much of a text as fits a width, with a space where half of a character is cut off. -/
def cropTo : Nat → List Char → List Char
  | _, [] => []
  | room, c :: rest =>
    if charCells c ≤ room then c :: cropTo (room - charCells c) rest
    else List.replicate room ' '

def spaces (count : Nat) : List Char := List.replicate count ' '

/-- A text that is not wider than given; what does not fit becomes an ellipsis. -/
def shorten (width : Nat) (cs : List Char) : List Char :=
  if width < cells cs then cropTo (width - 1) cs ++ ['…'] else cs

/-- Each tab as spaces up to the next multiple of eight cells. -/
def expandTabsFrom (column : Nat) : List Char → List Char
  | [] => []
  | '\t' :: rest =>
    let stop := (column / 8 + 1) * 8
    spaces (stop - column) ++ expandTabsFrom stop rest
  | c :: rest => c :: expandTabsFrom (column + charCells c) rest

def expandTabs (cs : List Char) : List Char := expandTabsFrom 0 cs

/-- The lines of a text, folded at a width. -/
def wrap (width : Nat) (cs : List Char) : List (List Char) :=
  (lines cs).flatMap fun paragraph =>
    (fill true width (expandTabs paragraph)).map fun line =>
      let line := cropBlanks width line
      if width < cells line then cropTo width line else line

/-- Where a text stands in its cells. -/
inductive Alignment where
  | left
  | center
  | right
  deriving DecidableEq, Repr

/-- A line placed in a width that it is shortened to. -/
def Alignment.place (alignment : Alignment) (width : Nat) (line : List Char) : List Char :=
  match alignment with
  | .left => let line := shorten width line; line ++ spaces (width - cells line)
  | .center =>
    let line := shorten width (trimEnd line)
    let before := (width - cells line) / 2
    spaces before ++ line ++ spaces (width - before - cells line)
  | .right => let line := shorten width (trimEnd line); spaces (width - cells line) ++ line

/-- The lines of a text in a cell: words are not cut, and each line is as wide as the cell. -/
def wrapCell (alignment : Alignment) (width : Nat) (cs : List Char) : List (List Char) :=
  (lines cs).flatMap fun paragraph =>
    (fill false width (expandTabs paragraph)).map fun line =>
      alignment.place width (cropBlanks width line)

end LiterateRuby.Outline
