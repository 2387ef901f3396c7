import LiterateRuby.Outline.Markup
import LiterateRuby.Outline.Wrap

/-! # Trees of labels

A diagram is drawn with one line for each line of a label. Guides connect a label with the labels
below it; a label without room beside its guides is left out.
-/

namespace LiterateRuby.Outline

/-- A label with the diagrams below it. -/
inductive Diagram where
  | node (label : String) (below : List Diagram)

namespace Diagram

/-- The guide beside the first line of a label. -/
def branchGuide (isLast : Bool) : List Char := if isLast then "└── ".toList else "├── ".toList

/-- The guide beside what comes after the first line of a label. -/
def trunkGuide (isLast : Bool) : List Char := if isLast then spaces 4 else "│   ".toList

/-- Lines after guides, one before the first line and one before the others. -/
def guided (first others : List Char) : List (List Char) → List (List Char)
  | [] => []
  | line :: rest => (first ++ line) :: rest.map (others ++ ·)

mutual

def draw (width : Nat) (first others : List Char) : Diagram → List (List Char)
  | .node label below =>
    let room := width - Text.cells first
    let own := if room = 0 then [] else wrap room (plain label)
    guided first others own ++ drawBelow width others below

def drawBelow (width : Nat) (guides : List Char) : List Diagram → List (List Char)
  | [] => []
  | diagram :: rest =>
    draw width (guides ++ branchGuide rest.isEmpty) (guides ++ trunkGuide rest.isEmpty) diagram ++
      drawBelow width guides rest

end

def lines (width : Nat) (diagram : Diagram) : List (List Char) := draw width [] [] diagram

end Diagram

end LiterateRuby.Outline
