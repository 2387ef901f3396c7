import LiterateRuby.Ruby.Tree
import LiterateRuby.Text.Line

/-! # Diagnostics of a faulty tree

What a tree lacks and what could not be read is reported in source order with line and column. A
stretch that could not be read is reported once, whatever is in it. The trees that are still to be
looked at wait on a stack, the next one first; only faulty children are put there.
-/

namespace LiterateRuby.Ruby

/-- The place of a tree, counted from one. -/
def placeText (source : Source) (tree : Tree) : String :=
  toString (source.row tree.start + 1) ++ ":" ++ toString (source.column tree.start + 1)

/-- The first line of what could not be read, cut after forty characters. -/
def snippet (source : Source) (tree : Tree) : String :=
  let text := Text.trim (Text.Utf8.decodeLossy (source.slice tree.start tree.stop))
  String.ofList (((Text.lines text).headD []).take 40)

/-- Whether a tree is a stretch of text that could not be read. -/
def Tree.isUnread (tree : Tree) : Bool := !tree.label.missing && tree.kind == Tree.errorKind

/-- Whether a tree is reported when it is looked at. -/
def Tree.isReported (tree : Tree) : Bool := tree.label.missing || tree.isUnread

def complaint (source : Source) (tree : Tree) : String :=
  if tree.label.missing then placeText source tree ++ ": missing '" ++ tree.kind ++ "'"
  else placeText source tree ++ ": syntax error near '" ++ snippet source tree ++ "'"

/-- The children that are looked at: the faulty ones, and none of what could not be read. -/
def faultyChildren (tree : Tree) : List Tree :=
  if tree.isUnread then [] else tree.children.filter Tree.isFaulty

mutual

def Tree.count : Tree → Nat
  | .node _ children => Tree.countAll children + 1

def Tree.countAll : List Tree → Nat
  | [] => 0
  | tree :: rest => Tree.count tree + Tree.countAll rest

end

private theorem Tree.countAll_append (first second : List Tree) :
    countAll (first ++ second) = countAll first + countAll second := by
  induction first with
  | nil => simp [countAll]
  | cons tree rest ih => rw [List.cons_append, countAll, countAll, ih, Nat.add_assoc]

private theorem Tree.countAll_filter_le (keep : Tree → Bool) (trees : List Tree) :
    countAll (trees.filter keep) ≤ countAll trees := by
  induction trees with
  | nil => exact Nat.le_refl _
  | cons tree rest ih =>
    rw [List.filter_cons]
    split <;> simp only [countAll] <;> omega

private theorem countAll_faultyChildren_lt (tree : Tree) : Tree.countAll (faultyChildren tree) < tree.count := by
  obtain ⟨label, children⟩ := tree
  unfold faultyChildren
  split
  · exact Nat.succ_pos _
  · exact Nat.lt_succ_of_le (Tree.countAll_filter_le _ children)

/-- The diagnostics of the trees on a stack. -/
def stackDiagnostics (source : Source) : List Tree → List String
  | [] => []
  | tree :: stack =>
    let later := stackDiagnostics source (faultyChildren tree ++ stack)
    if tree.isReported then complaint source tree :: later else later
termination_by stack => Tree.countAll stack
decreasing_by
  rw [Tree.countAll_append, Tree.countAll]
  exact Nat.add_lt_add_right (countAll_faultyChildren_lt tree) _

/-- The diagnostics of a source: none for a tree without faults, at least one otherwise. -/
def diagnostics (source : Source) (root : Tree) : List String :=
  if root.isFaulty then
    match stackDiagnostics source [root] with
    | [] => ["syntax error"]
    | found => found
  else []

end LiterateRuby.Ruby
