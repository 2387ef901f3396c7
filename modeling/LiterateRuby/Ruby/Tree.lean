import LiterateRuby.Text.Utf8

/-! # Syntax trees of Ruby source

A tree has a kind, a span of bytes, the field it fills in its parent and children in source order.
Named children carry meaning, the others are marks and keywords. A tree is faulty if it or a tree
below it could not be read.
-/

namespace LiterateRuby.Ruby

/-- What a tree says about itself, its children apart. -/
structure Label where
  kind : String
  start : Nat
  stop : Nat
  /-- The field that the tree fills in its parent. -/
  field : Option String := none
  named : Bool := true
  /-- Whether the tree stands for something that the source lacks. -/
  missing : Bool := false
  /-- Whether the tree is marked as faulty whatever its children are. -/
  flagged : Bool := false
  deriving DecidableEq, Repr

inductive Tree where
  | node (label : Label) (children : List Tree)

instance : Inhabited Tree := ⟨.node ⟨"", 0, 0, none, true, false, false⟩ []⟩

namespace Tree

def label : Tree → Label
  | .node label _ => label

def children : Tree → List Tree
  | .node _ children => children

def kind (tree : Tree) : String := tree.label.kind

def start (tree : Tree) : Nat := tree.label.start

/-- The byte after the last one. -/
def stop (tree : Tree) : Nat := tree.label.stop

def isComment (tree : Tree) : Bool := tree.kind == "comment"

/-- The kind of a tree that holds text nothing could be made of. -/
def errorKind : String := "ERROR"

def namedChildren (tree : Tree) : List Tree := tree.children.filter (·.label.named)

/-- The first child that fills a field. -/
def child? (tree : Tree) (field : String) : Option Tree :=
  tree.children.find? fun child => child.label.field == some field

mutual

/-- Whether a tree or a tree below it could not be read. -/
def isFaulty : Tree → Bool
  | .node label children =>
    label.kind == errorKind || label.missing || label.flagged || anyFaulty children

def anyFaulty : List Tree → Bool
  | [] => false
  | tree :: rest => isFaulty tree || anyFaulty rest

end

mutual

def depth : Tree → Nat
  | .node _ children => depthOfAll children + 1

def depthOfAll : List Tree → Nat
  | [] => 0
  | tree :: rest => max (depth tree) (depthOfAll rest)

end

mutual

/-- The trees of a kind in a tree, through named children, each before those below it and later
siblings before earlier ones. -/
def descendants (kind : String) : Tree → List Tree
  | .node label children =>
    let below := descendantsOfAll kind children
    if label.kind = kind then .node label children :: below else below

def descendantsOfAll (kind : String) : List Tree → List Tree
  | [] => []
  | tree :: rest =>
    descendantsOfAll kind rest ++ (if tree.label.named then descendants kind tree else [])

end

theorem child?_mem {tree child : Tree} {field : String} (found : tree.child? field = some child) :
    child ∈ tree.children := List.mem_of_find?_eq_some found

private theorem sizeOf_children_lt (tree : Tree) : sizeOf tree.children < sizeOf tree := by
  cases tree
  simp only [children, node.sizeOf_spec]
  omega

theorem sizeOf_child?_lt {tree child : Tree} {field : String}
    (found : tree.child? field = some child) : sizeOf child < sizeOf tree :=
  Nat.lt_trans (List.sizeOf_lt_of_mem (child?_mem found)) (sizeOf_children_lt tree)

end Tree

structure Source where
  bytes : List UInt8

namespace Source

def ofText (text : String) : Source := ⟨text.toUTF8.toList⟩

def slice (source : Source) (start stop : Nat) : List UInt8 :=
  (source.bytes.take stop).drop start

def text (source : Source) (start stop : Nat) : Except Text.Utf8.Fault String :=
  Text.Utf8.decode (source.slice start stop)

def lineFeed : UInt8 := 10

/-- The number of lines before a position. -/
def row (source : Source) (position : Nat) : Nat := (source.bytes.take position).count lineFeed

/-- The bytes between the start of its line and a position. -/
def lineBefore (source : Source) (position : Nat) : List UInt8 :=
  ((source.bytes.take position).reverse.takeWhile (· != lineFeed)).reverse

/-- The number of bytes between the start of its line and a position. -/
def column (source : Source) (position : Nat) : Nat := (source.lineBefore position).length

def isSpace (byte : UInt8) : Bool := byte == 32 || (9 ≤ byte && byte ≤ 13)

/-- Whether nothing but white space precedes a position on its line. -/
def startsLine (source : Source) (position : Nat) : Bool :=
  (source.lineBefore position).all isSpace

end Source

end LiterateRuby.Ruby
