import LiterateRuby.Ruby.Syntax.Statement

/-! # Syntax trees of source text

The rules of the grammar for phrases of some depth use the rules for phrases of one less. A
program that is a row of statements from start to end has a tree; comments and heredoc texts are
put into the innermost tree around them.
-/

namespace LiterateRuby.Ruby

open Syntax

mutual

/-- A tree with an extra tree in the innermost tree around it. -/
def withExtra (extra : Tree) : Tree → Tree
  | .node label children => .node label (amongTrees extra children)

/-- Trees with an extra tree among them or in one of them. -/
def amongTrees (extra : Tree) : List Tree → List Tree
  | [] => [extra]
  | tree :: rest =>
    if tree.start ≤ extra.start && extra.stop ≤ tree.stop then withExtra extra tree :: rest
    else if extra.start < tree.start then extra :: tree :: rest
    else tree :: amongTrees extra rest

end

/-- The rules for phrases that contain others. -/
def nestedRules (rules : Rules) : Rules :=
  ⟨statements rules, statement rules, expression rules, operation rules, primary rules, pattern rules⟩

def rulesOfDepth : Nat → Rules
  | 0 => Rules.none
  | depth + 1 => nestedRules (rulesOfDepth depth)

/-- A program; what follows a line that marks the end of the program is not read. -/
def program (rules : Rules) : Reading Tree := do
  let block ← rules.statements ["__END__"]
  blanks
  let left ← rest
  guard (left.isEmpty || nameAt left == "__END__")
  let place ← get
  let tree : Tree :=
    treeBetween "program" block.start (place.offset + byteCount left) block.trees
  return place.extras.foldr withExtra tree

def withoutByteOrderMark (cs : List Char) : List Char :=
  match cs with
  | c :: rest => if c.toNat = 0xFEFF then rest else cs
  | [] => []

/-- The syntax tree of a source text, if the text is a program. -/
def parse? (text : String) : Option Tree :=
  let cs := text.toList
  let body := withoutByteOrderMark cs
  let start := (Place.atStart cs).after (cs.length - body.length)
  ((program (rulesOfDepth (cs.length + 2))).run start).map (·.1)

end LiterateRuby.Ruby
