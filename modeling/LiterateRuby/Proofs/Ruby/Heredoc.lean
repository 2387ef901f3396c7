import LiterateRuby.Ruby.Walk
import Mathlib.Data.List.Sort
import Mathlib.Data.List.TakeWhile

/-! # The texts of heredocs

Each heredoc of a program has a text, and the texts stand in the order in which the heredocs are opened. An
expression that opens heredocs is kept up to a text that is found by counting: as many texts as it opens
heredocs, from the first one that starts behind the expression. `decodeValue_heredoc` says where that ends
in every tree, and that this is the last text of the expression itself exactly if the texts of the heredocs
opened before it start before its end, and its own texts do not.
-/

namespace LiterateRuby.Ruby

namespace Tree

def openingKind : String := "heredoc_beginning"

def textKind : String := "heredoc_body"

/-! ## Source order -/

mutual

/-- The trees of a kind in a tree, through named children, in source order. -/
def inOrder (kind : String) : Tree → List Tree
  | .node label children =>
    let below := inOrderAll kind children
    if label.kind = kind then .node label children :: below else below

/-- The trees of a kind in a list of siblings, in source order. -/
def inOrderAll (kind : String) : List Tree → List Tree
  | [] => []
  | tree :: rest => (if tree.label.named then inOrder kind tree else []) ++ inOrderAll kind rest

end

mutual

/-- A search that visits later siblings first finds the same trees. -/
theorem descendants_perm (kind : String) (tree : Tree) :
    (tree.descendants kind).Perm (tree.inOrder kind) := by
  cases tree with
  | node label children =>
    have below := descendantsOfAll_perm kind children
    rw [descendants, inOrder]
    split_ifs
    · exact below.cons _
    · exact below

theorem descendantsOfAll_perm (kind : String) (trees : List Tree) :
    (descendantsOfAll kind trees).Perm (inOrderAll kind trees) := by
  cases trees with
  | nil => exact .refl _
  | cons tree rest =>
    have later := descendantsOfAll_perm kind rest
    have first := descendants_perm kind tree
    rw [descendantsOfAll, inOrderAll]
    refine List.perm_append_comm.trans (List.Perm.append ?_ later)
    split_ifs
    · exact first
    · exact .refl _

end

private theorem inOrderAll_append (kind : String) (first second : List Tree) :
    inOrderAll kind (first ++ second) = inOrderAll kind first ++ inOrderAll kind second := by
  induction first with
  | nil => rfl
  | cons tree rest ih => rw [List.cons_append, inOrderAll, inOrderAll, ih, List.append_assoc]

/-- Where a tree stands in another one: below named children, with the trees of a kind that come before and
after it in source order. -/
inductive Stands (kind : String) (tree : Tree) : Tree → List Tree → List Tree → Prop
  | here : Stands kind tree tree [] []
  | inChild {label : Label} {left right : List Tree} {child : Tree} {before after : List Tree}
      (named : child.label.named = true) (inside : Stands kind tree child before after) :
      Stands kind tree (.node label (left ++ child :: right))
        ((if label.kind = kind then [.node label (left ++ child :: right)] else []) ++
          inOrderAll kind left ++ before)
        (after ++ inOrderAll kind right)

private theorem Stands.inOrder_eq {kind : String} {tree root : Tree} {before after : List Tree}
    (stands : Stands kind tree root before after) :
    root.inOrder kind = before ++ tree.inOrder kind ++ after := by
  induction stands with
  | here => simp
  | @inChild label left right child before after named _ ih =>
    rw [inOrder, inOrderAll_append, inOrderAll, if_pos named, ih]
    split_ifs <;> simp

end Tree

/-! ## Counting texts -/

section Ordered

variable {texts : List Tree}

/-- Behind a text that starts at or after a byte, all do. -/
theorem le_start_of_mem {text : Tree} {rest : List Tree} {byte : Nat}
    (ordered : (text :: rest).Pairwise (·.start < ·.start)) (reached : byte ≤ text.start) {next : Tree}
    (member : next ∈ text :: rest) : byte ≤ next.start := by
  rcases List.mem_cons.mp member with rfl | later
  · exact reached
  · exact reached.trans ((List.pairwise_cons.mp ordered).1 next later).le

private theorem countP_eq_zero_of_reached {byte : Nat} (reached : ∀ text ∈ texts, byte ≤ text.start) :
    texts.countP (·.start < byte) = 0 := by
  rw [List.countP_eq_zero]
  intro text member
  simpa using reached text member

/-- In order of their starts, the texts that start at or after a byte are those that remain when the others
are left out. -/
theorem filter_start_eq_drop (ordered : texts.Pairwise (·.start < ·.start)) (byte : Nat) :
    texts.filter (byte ≤ ·.start) = texts.drop (texts.countP (·.start < byte)) := by
  induction texts with
  | nil => rfl
  | cons text rest ih =>
    by_cases passed : text.start < byte
    · rw [List.filter_cons_of_neg (by simpa using passed), List.countP_cons_of_pos (by simpa using passed),
        List.drop_succ_cons, ih (List.pairwise_cons.mp ordered).2]
    · have reached : ∀ next ∈ text :: rest, byte ≤ next.start :=
        fun next => le_start_of_mem ordered (Nat.le_of_not_lt passed)
      rw [countP_eq_zero_of_reached reached, List.drop_zero, List.filter_eq_self]
      intro next member
      simpa using reached next member

/-- In order of their starts, a text starts before a byte exactly if its place is among the number of those
that do. -/
theorem start_lt_iff (ordered : texts.Pairwise (·.start < ·.start)) {byte place : Nat} {text : Tree}
    (found : texts[place]? = some text) : text.start < byte ↔ place < texts.countP (·.start < byte) := by
  induction texts generalizing place with
  | nil => cases found
  | cons head rest ih =>
    by_cases passed : head.start < byte
    · rw [List.countP_cons_of_pos (by simpa using passed)]
      cases place with
      | zero =>
        obtain rfl := Option.some.inj found
        exact iff_of_true passed (Nat.succ_pos _)
      | succ place => rw [ih (List.pairwise_cons.mp ordered).2 found, Nat.succ_lt_succ_iff]
    · have reached : ∀ next ∈ head :: rest, byte ≤ next.start :=
        fun next => le_start_of_mem ordered (Nat.le_of_not_lt passed)
      rw [countP_eq_zero_of_reached reached]
      exact iff_of_false (Nat.not_lt.mpr (reached text (List.mem_of_getElem? found))) (Nat.not_lt_zero _)

private theorem eq_of_start_eq (ordered : texts.Pairwise (·.start < ·.start)) {first second : Tree}
    (one : first ∈ texts) (other : second ∈ texts) (same : first.start = second.start) : first = second := by
  have starts : (texts.map Tree.start).Nodup :=
    List.pairwise_map.mpr (ordered.imp fun less => Nat.ne_of_lt less)
  exact List.inj_on_of_nodup_map starts one other same

end Ordered

/-- In order of their starts, the texts that a tree is followed by. -/
theorem heredocBodies_eq {root : Tree} (tree : Tree)
    (ordered : (root.inOrder Tree.textKind).Pairwise (·.start < ·.start)) :
    heredocBodies root tree =
      (root.inOrder Tree.textKind).drop ((root.inOrder Tree.textKind).countP (·.start < tree.stop)) := by
  rw [← filter_start_eq_drop ordered]
  have found : (heredocBodies root tree).Perm ((root.inOrder Tree.textKind).filter (tree.stop ≤ ·.start)) :=
    (List.mergeSort_perm _ _).trans ((Tree.descendants_perm Tree.textKind root).filter _)
  have sorted : (heredocBodies root tree).Pairwise fun left right => left.start ≤ right.start := by
    have total := @List.pairwise_mergeSort _ (fun (left right : Tree) => decide (left.start ≤ right.start))
      (fun _ _ _ first second => by simp only [decide_eq_true_eq] at *; omega)
      (fun _ _ => by simp only [Bool.or_eq_true, decide_eq_true_eq]; omega)
      ((root.descendants "heredoc_body").filter (tree.stop ≤ ·.start))
    exact total.imp of_decide_eq_true
  refine found.eq_of_pairwise ?_ sorted ((ordered.filter _).imp Nat.le_of_lt)
  intro first second one other least most
  exact eq_of_start_eq ordered (List.mem_of_mem_filter (found.subset one)) (List.mem_of_mem_filter other)
    (Nat.le_antisymm least most)

/-! ## The end of an expression -/

/-- Each heredoc has one text, the texts start one behind the other, none is empty and no two end
together. -/
structure Tree.Paired (root : Tree) : Prop where
  one : (root.inOrder openingKind).length = (root.inOrder textKind).length
  ordered : (root.inOrder textKind).Pairwise (·.start < ·.start)
  filled : ∀ text ∈ root.inOrder textKind, text.start < text.stop
  apart : (root.inOrder textKind).Pairwise (·.stop ≠ ·.stop)

/-- The number of heredoc texts that start before the end of a tree. -/
def Tree.passed (root tree : Tree) : Nat := (root.inOrder textKind).countP (·.start < tree.stop)

/-- The texts of the heredocs that were opened `before` a tree start before its end, and those of the tree's
own heredocs do not. -/
structure Tree.TextsBehind (root tree : Tree) (before : List Tree) : Prop where
  earlier : ∀ place text, (root.inOrder textKind)[place]? = some text → place < before.length →
    text.start < tree.stop
  own : ∀ place text, (root.inOrder textKind)[before.length + place]? = some text →
    place < (tree.inOrder openingKind).length → tree.stop ≤ text.start

/-- The text of a tree up to a byte, as it is kept. -/
def keepUpTo (source : Source) (tree : Tree) (stop : Nat) : Except TreeFault Constant := do
  let text ← (source.text tree.start stop).mapError .undecodable
  keepSource (String.ofList (Text.trimEnd text.toList))

section End

variable {source : Source} {root tree : Tree} {before after : List Tree}

private theorem heredocEnd?_eq (paired : root.Paired) (opens : tree.inOrder Tree.openingKind ≠ []) :
    heredocEnd? source root tree =
      match (root.inOrder Tree.textKind)[root.passed tree + (tree.inOrder Tree.openingKind).length - 1]? with
      | some text => .ok (some text.stop)
      | none => .error (.unterminatedHeredoc (source.row tree.start + 1)) := by
  have count : (tree.descendants "heredoc_beginning").length = (tree.inOrder Tree.openingKind).length :=
    (Tree.descendants_perm Tree.openingKind tree).length_eq
  obtain ⟨more, own⟩ := Nat.exists_eq_succ_of_ne_zero (mt List.length_eq_zero_iff.mp opens)
  unfold heredocEnd?
  rw [count, own, heredocBodies_eq tree paired.ordered]
  dsimp only
  rw [List.getElem?_drop]
  rfl

private theorem decodeValue_of_end {stop : Nat} (found : heredocEnd? source root tree = .ok (some stop)) :
    decodeValue source root tree = keepUpTo source tree stop := by
  rw [decodeValue, found]
  rfl

private theorem decodeValue_of_fault {fault : TreeFault} (unfound : heredocEnd? source root tree = .error fault) :
    decodeValue source root tree = .error fault := by
  rw [decodeValue, unfound]
  rfl

private theorem keepUpTo_eq_ok {stop : Nat} {text : String} (decoded : source.text tree.start stop = .ok text)
    (shown : Text.allBlank text.toList = false) :
    keepUpTo source tree stop = .ok (.raw (String.ofList (Text.trimEnd text.toList))) := by
  have given : String.ofList (Text.trimEnd text.toList) ≠ "" := by
    intro empty
    have blank : Text.trimEnd text.toList = [] := by simpa using congrArg String.toList empty
    rw [Text.trimEnd, List.reverse_eq_nil_iff, List.dropWhile_eq_nil_iff] at blank
    have blank : Text.allBlank text.toList = true :=
      List.all_eq_true.mpr fun c member => blank c (List.mem_reverse.mpr member)
    rw [blank] at shown
    cases shown
  have kept : Constant.ofSource (String.ofList (Text.trimEnd text.toList)) =
      .ok (.raw (String.ofList (Text.trimEnd text.toList))) := if_neg given
  rw [keepUpTo, decoded]
  exact congrArg (Except.mapError TreeFault.value) kept

/-- Each heredoc of a tree has its text. -/
theorem exists_text (paired : root.Paired) (stands : Tree.Stands Tree.openingKind tree root before after)
    (place : Nat) (own : place < before.length + (tree.inOrder Tree.openingKind).length) :
    ∃ text, (root.inOrder Tree.textKind)[place]? = some text := by
  have one := paired.one
  rw [stands.inOrder_eq, List.length_append, List.length_append] at one
  exact ⟨_, List.getElem?_eq_getElem (by omega)⟩

private theorem place_eq_of_stop_eq (paired : root.Paired) {one other : Nat} {first second : Tree}
    (here : (root.inOrder Tree.textKind)[one]? = some first)
    (there : (root.inOrder Tree.textKind)[other]? = some second) (same : first.stop = second.stop) :
    one = other := by
  have stops : ((root.inOrder Tree.textKind).map Tree.stop).Nodup := List.pairwise_map.mpr paired.apart
  have within : one < ((root.inOrder Tree.textKind).map Tree.stop).length := by
    rw [List.length_map]
    exact (List.getElem?_eq_some_iff.mp here).1
  rw [← List.getElem?_inj within stops, List.getElem?_map, List.getElem?_map, here, there, Option.map_some,
    Option.map_some, same]

/-- As many texts start before the end of a tree as heredocs are opened before it exactly if the texts of
its own heredocs are behind it, and those of the heredocs before are not. -/
theorem passed_eq_iff (paired : root.Paired) (stands : Tree.Stands Tree.openingKind tree root before after)
    (opens : tree.inOrder Tree.openingKind ≠ []) :
    root.passed tree = before.length ↔ root.TextsBehind tree before := by
  have positive := List.length_pos_iff.mpr opens
  constructor
  · intro same
    refine ⟨fun place text found less => ?_, fun place text found _ => ?_⟩
    · rwa [start_lt_iff paired.ordered found, ← Tree.passed, same]
    · rw [← not_lt, start_lt_iff paired.ordered found, ← Tree.passed, same]
      omega
  · intro behind
    apply Nat.le_antisymm
    · obtain ⟨first, found⟩ := exists_text paired stands before.length (by omega)
      have reached := behind.own 0 first found positive
      rw [← not_lt, start_lt_iff paired.ordered found] at reached
      exact not_lt.mp reached
    · by_contra fewer
      obtain ⟨text, found⟩ := exists_text paired stands (root.passed tree) (by omega)
      have early := behind.earlier _ text found (not_le.mp fewer)
      rw [start_lt_iff paired.ordered found] at early
      exact lt_irrefl _ early

/-- A tree is kept up to its end and the end of the text of its last heredoc exactly if the texts are behind
it. -/
theorem heredocEnd?_eq_iff (paired : root.Paired)
    (stands : Tree.Stands Tree.openingKind tree root before after)
    (opens : tree.inOrder Tree.openingKind ≠ []) {last : Tree}
    (found : (root.inOrder Tree.textKind)[before.length + (tree.inOrder Tree.openingKind).length - 1]? =
      some last) :
    heredocEnd? source root tree = .ok (some (max tree.stop last.stop)) ↔ root.TextsBehind tree before := by
  have positive := List.length_pos_iff.mpr opens
  rw [← passed_eq_iff paired stands opens, heredocEnd?_eq paired opens]
  -- a text behind the tree ends behind it
  have longer {place : Nat} {text : Tree} (found : (root.inOrder Tree.textKind)[place]? = some text)
      (behind : root.passed tree ≤ place) : tree.stop < text.stop := by
    have filled := paired.filled text (List.mem_of_getElem? found)
    have reached : ¬text.start < tree.stop := by
      rw [start_lt_iff paired.ordered found]
      exact not_lt.mpr behind
    omega
  constructor
  · intro same
    split at same
    · next text reached =>
      have stop : text.stop = max tree.stop last.stop := by simpa using same
      have behind := longer reached (by omega)
      have places := place_eq_of_stop_eq paired reached found (by omega)
      omega
    · cases same
  · intro same
    have behind := longer found (by omega)
    rw [same, found, max_eq_right behind.le]

/-- Where an expression that opens heredocs ends, and what it is read as. Its end is counted from its own:
with `n` heredocs, it is the end of the `n`-th text among those that do not start before it, and without so
many the heredoc is taken to be unterminated. This is the later one of its own end and the end of the text
of its last heredoc exactly if the texts of its own heredocs start behind it, and those of the heredocs
opened before it do not. -/
theorem decodeValue_heredoc (paired : root.Paired)
    (stands : Tree.Stands Tree.openingKind tree root before after)
    (opens : tree.inOrder Tree.openingKind ≠ []) :
    ∃ last,
      (root.inOrder Tree.textKind)[before.length + (tree.inOrder Tree.openingKind).length - 1]? = some last ∧
      decodeValue source root tree =
        (match (root.inOrder Tree.textKind)[
            root.passed tree + (tree.inOrder Tree.openingKind).length - 1]? with
        | some text => keepUpTo source tree text.stop
        | none => .error (.unterminatedHeredoc (source.row tree.start + 1))) ∧
      (heredocEnd? source root tree = .ok (some (max tree.stop last.stop)) ↔ root.TextsBehind tree before) ∧
      (root.TextsBehind tree before → ∀ text, source.text tree.start (max tree.stop last.stop) = .ok text →
        Text.allBlank text.toList = false →
        decodeValue source root tree = .ok (.raw (String.ofList (Text.trimEnd text.toList)))) := by
  have positive := List.length_pos_iff.mpr opens
  obtain ⟨last, found⟩ :=
    exists_text paired stands (before.length + (tree.inOrder Tree.openingKind).length - 1) (by omega)
  have settled : heredocEnd? source root tree = .ok _ ↔ _ := heredocEnd?_eq_iff paired stands opens found
  refine ⟨last, found, ?_, settled, ?_⟩
  · have ends : heredocEnd? source root tree = _ := heredocEnd?_eq paired opens
    split at ends
    · exact decodeValue_of_end ends
    · exact decodeValue_of_fault ends
  · intro behind text decoded shown
    rw [decodeValue_of_end (settled.mpr behind), keepUpTo_eq_ok decoded shown]

end End

/-- An array that opens a heredoc and ends on a line behind the text. -/
def openArray : Tree :=
  .node { kind := "array", start := 14, stop := 28, field := some "right" }
    [.node { kind := "heredoc_beginning", start := 15, stop := 18 } [],
      .node { kind := "heredoc_body", start := 19, stop := 23 } [],
      .node { kind := "integer", start := 26, stop := 27 } []]

def openTitle : Tree := .node { kind := "constant", start := 6, stop := 7, field := some "name" } []

/-- The name that the array is assigned to. -/
def openName : Tree := .node { kind := "constant", start := 10, stop := 11, field := some "left" } []

/-- A class that assigns the array to a constant. -/
def openScene : Scene where
  source := .ofText "class A\n  B = [<<X,\nx\nX\n  1]\nend\n"
  root := .node { kind := "program", start := 0, stop := 33 }
    [.node { kind := "class", start := 0, stop := 32 }
      [openTitle,
        .node { kind := "body_statement", start := 10, stop := 28, field := some "body" }
          [.node { kind := "assignment", start := 10, stop := 28 } [openName, openArray]]]]

/-- The text inside the array is not seen, and no text is behind it: the heredoc is taken to be
unterminated. -/
theorem decodeValue_heredoc_of_inner :
    ∃ before after, Tree.Stands Tree.openingKind openArray openScene.root before after ∧
      ¬openScene.root.TextsBehind openArray before ∧
      decodeValue openScene.source openScene.root openArray = .error (.unterminatedHeredoc 2) := by
  have paired : openScene.root.Paired :=
    ⟨by decide +kernel, by decide +kernel, by decide +kernel, by decide +kernel⟩
  have own : (openArray.inOrder Tree.openingKind).length = 1 := by decide +kernel
  have all : (openScene.root.inOrder Tree.openingKind).length = 1 := by decide +kernel
  have starts : (openScene.root.inOrder Tree.textKind).map Tree.start = [19] := by decide +kernel
  have opens : openArray.inOrder Tree.openingKind ≠ [] := by
    intro empty
    rw [empty] at own
    cases own
  obtain ⟨before, after, stands⟩ :
      ∃ before after, Tree.Stands Tree.openingKind openArray openScene.root before after :=
    ⟨_, _, @Tree.Stands.inChild _ _ _ [] [] _ _ _ rfl <| @Tree.Stands.inChild _ _ _ [openTitle] [] _ _ _ rfl <|
      @Tree.Stands.inChild _ _ _ [] [] _ _ _ rfl <| @Tree.Stands.inChild _ _ _ [openName] [] _ _ _ rfl .here⟩
  have first : before = [] := by
    have split := congrArg List.length stands.inOrder_eq
    rw [all, List.length_append, List.length_append, own] at split
    exact List.length_eq_zero_iff.mp (by omega)
  subst first
  obtain ⟨text, only, start⟩ := List.map_eq_singleton_iff.mp starts
  obtain ⟨last, -, value, -, -⟩ := @decodeValue_heredoc openScene.source _ _ _ _ paired stands opens
  refine ⟨[], after, stands, fun behind => ?_, ?_⟩
  · have reached := behind.own 0 text (by rw [only]; rfl) (by omega)
    have inside : text.start < openArray.stop := by rw [start]; decide
    omega
  · have passed : openScene.root.passed openArray = 1 := by decide +kernel
    rw [value, passed, own, only]
    have line : openScene.source.row openArray.start + 1 = 2 := by decide +kernel
    exact congrArg (fun line => Except.error (TreeFault.unterminatedHeredoc line)) line

end LiterateRuby.Ruby
