import LiterateRuby.Ruby.Walk

/-! # What is reported of a faulty tree

The trees in a tree are listed in source order, each with the trees around it (`Tree.sites`). One of them is
reported if the source lacks it or it could not be read, unless it stands in a stretch that could not be read
(`Site.isReported`). The stack of trees that waits while a source is diagnosed never holds a tree without
faults, and what stands in an unread stretch never comes upon it; `diagnostics_sites` says that nothing is lost
that way: exactly the reported trees are told of, each once and in source order.
-/

namespace LiterateRuby.Ruby

/-- A tree in a tree, with the trees that it stands in, the innermost one first. -/
structure Site where
  around : List Tree
  tree : Tree

def Site.isReported (site : Site) : Bool := site.tree.isReported && site.around.all (!·.isUnread)

namespace Tree

mutual

/-- The trees in a tree, each before those in it, and those in a child before those in the next one. -/
def sitesWithin (around : List Tree) : Tree → List Site
  | .node label children =>
    ⟨around, .node label children⟩ :: sitesWithinAll (.node label children :: around) children

def sitesWithinAll (around : List Tree) : List Tree → List Site
  | [] => []
  | tree :: rest => sitesWithin around tree ++ sitesWithinAll around rest

end

/-- All trees in a tree, itself first, in source order. -/
def sites (root : Tree) : List Site := root.sitesWithin []

/-- Whether a tree is faulty by itself, whatever its children are. -/
def isMarked (tree : Tree) : Bool := tree.kind == errorKind || tree.label.missing || tree.label.flagged

private theorem isMarked_of_isReported {tree : Tree} (reported : tree.isReported = true) :
    tree.isMarked = true := by
  simp only [isReported, isUnread, Bool.or_eq_true, Bool.and_eq_true] at reported
  rcases reported with missing | ⟨_, unread⟩
  · simp [isMarked, missing]
  · simp [isMarked, unread]

/-! ## Faulty trees -/

mutual

/-- A tree is faulty if one of the trees in it is. -/
theorem isFaulty_eq_any (around : List Tree) :
    ∀ tree : Tree, tree.isFaulty = (tree.sitesWithin around).any (·.tree.isMarked)
  | .node label children => by
    rw [isFaulty, sitesWithin, List.any_cons, anyFaulty_eq_any (.node label children :: around) children]
    rfl

theorem anyFaulty_eq_any (around : List Tree) :
    ∀ trees : List Tree, anyFaulty trees = (sitesWithinAll around trees).any (·.tree.isMarked)
  | [] => rfl
  | tree :: rest => by
    rw [anyFaulty, sitesWithinAll, List.any_append, isFaulty_eq_any around tree, anyFaulty_eq_any around rest]

end

/-- Nothing is reported of a tree without faults. -/
theorem reported_of_sound {around : List Tree} {tree : Tree} (sound : tree.isFaulty = false) :
    (tree.sitesWithin around).filter Site.isReported = [] := by
  rw [isFaulty_eq_any around, List.any_eq_false] at sound
  refine List.filter_eq_nil_iff.mpr fun site listed reported => sound site listed ?_
  simp only [Site.isReported, Bool.and_eq_true] at reported
  exact isMarked_of_isReported reported.1

/-! ## Stretches that could not be read -/

mutual

theorem suffix_of_mem_sitesWithin {around : List Tree} {site : Site} :
    ∀ {tree : Tree}, site ∈ tree.sitesWithin around → around <:+ site.around
  | .node label children, listed => by
    rw [sitesWithin, List.mem_cons] at listed
    rcases listed with rfl | below
    · exact List.suffix_refl around
    · exact (List.suffix_cons _ around).trans (suffix_of_mem_sitesWithinAll below)

/-- The trees in a tree stand in all that it stands in. -/
theorem suffix_of_mem_sitesWithinAll {around : List Tree} {site : Site} :
    ∀ {trees : List Tree}, site ∈ sitesWithinAll around trees → around <:+ site.around
  | tree :: rest, listed => by
    rw [sitesWithinAll, List.mem_append] at listed
    rcases listed with first | later
    · exact suffix_of_mem_sitesWithin first
    · exact suffix_of_mem_sitesWithinAll later

end

/-- Nothing is reported of what stands in a stretch that could not be read. -/
theorem reported_in_unread {around trees : List Tree} {outer : Tree} (unread : outer.isUnread = true) :
    (sitesWithinAll (outer :: around) trees).filter Site.isReported = [] := by
  refine List.filter_eq_nil_iff.mpr fun site listed reported => ?_
  simp only [Site.isReported, Bool.and_eq_true, List.all_eq_true, Bool.not_eq_true'] at reported
  have inside : outer ∈ site.around := (suffix_of_mem_sitesWithinAll listed).subset List.mem_cons_self
  rw [reported.2 outer inside] at unread
  cases unread

/-! ## The stack -/

def complaints (source : Source) (sites : List Site) : List String :=
  (sites.filter Site.isReported).map fun site => complaint source site.tree

private theorem complaints_append (source : Source) (first second : List Site) :
    complaints source (first ++ second) = complaints source first ++ complaints source second := by
  simp [complaints]

variable {source : Source}

/-- A tree is looked at before what stands in it, and this before the rest of the stack. -/
theorem complaints_sitesWithin {around : List Tree} (readable : around.all (!·.isUnread) = true) (label : Label)
    (children : List Tree) :
    let tree := Tree.node label children
    complaints source (tree.sitesWithin around) =
      (if tree.isReported then [complaint source tree] else []) ++
        complaints source (sitesWithinAll (tree :: around) children) := by
  dsimp only
  unfold complaints
  rw [sitesWithin, List.filter_cons]
  have here : Site.isReported ⟨around, .node label children⟩ = (Tree.node label children).isReported := by
    rw [Site.isReported, readable, Bool.and_true]
  rw [here]
  split <;> rfl

mutual

/-- By induction on the tree: the trees around it could all be read, so each child is looked at, unless it
has no faults or the tree itself could not be read, and then nothing is reported below it. -/
theorem stackDiagnostics_cons {around : List Tree} (readable : around.all (!·.isUnread) = true)
    (stack : List Tree) : ∀ tree : Tree, stackDiagnostics source (tree :: stack) =
      complaints source (tree.sitesWithin around) ++ stackDiagnostics source stack
  | .node label children => by
    have below : stackDiagnostics source (faultyChildren (.node label children) ++ stack) =
        complaints source (sitesWithinAll (.node label children :: around) children) ++
          stackDiagnostics source stack := by
      unfold faultyChildren
      split
      · next unread => rw [complaints, reported_in_unread unread]; rfl
      · next read =>
        refine stackDiagnostics_filter ?_ stack children
        rw [List.all_cons, readable, Bool.and_true, Bool.not_eq_true']
        exact Bool.eq_false_iff.mpr read
    rw [stackDiagnostics, below, complaints_sitesWithin readable]
    split <;> rfl

theorem stackDiagnostics_filter {around : List Tree} (readable : around.all (!·.isUnread) = true)
    (stack : List Tree) : ∀ trees : List Tree, stackDiagnostics source (trees.filter isFaulty ++ stack) =
      complaints source (sitesWithinAll around trees) ++ stackDiagnostics source stack
  | [] => rfl
  | tree :: rest => by
    rw [sitesWithinAll, complaints_append, List.append_assoc, ← stackDiagnostics_filter readable stack rest,
      List.filter_cons]
    split
    · rw [List.cons_append, stackDiagnostics_cons readable _ tree]
    · next sound =>
      rw [complaints, reported_of_sound (by simpa using sound), List.map_nil, List.nil_append]

end

end Tree

/-- The stack of trees comes upon the reported trees of the whole tree, in source order. -/
theorem stackDiagnostics_root (source : Source) (root : Tree) :
    stackDiagnostics source [root] = Tree.complaints source root.sites := by
  rw [@Tree.stackDiagnostics_cons source [] rfl [] root, stackDiagnostics, List.append_nil]
  rfl

private theorem diagnostics_of_faulty {source : Source} {root : Tree} (faulty : root.isFaulty = true) :
    diagnostics source root ≠ [] ∧
      diagnostics source root =
        if root.sites.filter Site.isReported = [] then ["syntax error"]
        else (root.sites.filter Site.isReported).map fun site => complaint source site.tree := by
  simp only [diagnostics, if_pos faulty, stackDiagnostics_root, Tree.complaints]
  cases root.sites.filter Site.isReported with
  | nil => simp
  | cons first rest => simp

/-- Reading a faulty tree gives its diagnostics and does nothing else: no call is made, whatever draft is at
hand. -/
theorem readTree_of_faulty {text : String} {root : Tree} (faulty : root.isFaulty = true) (draft : Draft) :
    readTree draft text root = Outcome.fail
      (if Text.allBlank text.toList then .empty else .syntaxErrors (diagnostics (Source.ofText text) root)) := by
  simp only [readTree]
  split
  · rfl
  · split
    · next silent => exact absurd silent (diagnostics_of_faulty faulty).1
    · rfl

/-- A source has diagnostics exactly if a tree in its tree is faulty by itself. Then these are what is said of
the reported trees, of each once and in source order, or one that stands for all if there are none; and
reading gives them and nothing else, whatever was collected before. -/
theorem diagnostics_sites (root : Tree) :
    (∀ source, diagnostics source root = [] ↔ ∀ site ∈ root.sites, site.tree.isMarked = false) ∧
      ((∃ site ∈ root.sites, site.tree.isMarked = true) →
        (∀ source, diagnostics source root =
          if root.sites.filter Site.isReported = [] then ["syntax error"]
          else (root.sites.filter Site.isReported).map fun site => complaint source site.tree) ∧
        ∀ draft text, readTree draft text root = Outcome.fail
          (if Text.allBlank text.toList then .empty
          else .syntaxErrors (diagnostics (Source.ofText text) root))) := by
  have marked : root.isFaulty = true ↔ ∃ site ∈ root.sites, site.tree.isMarked = true := by
    rw [Tree.isFaulty_eq_any [], List.any_eq_true]
    rfl
  constructor
  · intro source
    constructor
    · intro silent
      have sound : ¬root.isFaulty = true := fun faulty => (diagnostics_of_faulty faulty).1 silent
      rw [marked] at sound
      intro site listed
      exact Bool.eq_false_iff.mpr fun here => sound ⟨site, listed, here⟩
    · intro unmarked
      apply if_neg
      rw [marked]
      rintro ⟨site, listed, here⟩
      rw [unmarked site listed] at here
      cases here
  · intro site
    have faulty := marked.mpr site
    exact ⟨fun source => (diagnostics_of_faulty faulty).2, fun draft text => readTree_of_faulty faulty draft⟩

/-- A stretch that could not be read, with something in it that the source lacks, before something that the
source lacks, with a stretch in it that could not be read. -/
def nestedFaults : Tree :=
  .node { kind := "program", start := 0, stop := 6 }
    [.node { kind := Tree.errorKind, start := 0, stop := 2 }
      [.node { kind := "identifier", start := 1, stop := 1, missing := true } []],
    .node { kind := "identifier", start := 2, stop := 3 } [],
    .node { kind := "end", start := 4, stop := 4, named := false, missing := true }
      [.node { kind := Tree.errorKind, start := 5, stop := 6 } []]]

/-- Of the four faults, the one within the unread stretch is not reported. -/
theorem diagnostics_sites_of_nested :
    diagnostics (Source.ofText "(\nx) ]") nestedFaults =
        ["1:1: syntax error near '('", "2:3: missing 'end'", "2:4: syntax error near ']'"] ∧
      ∀ draft, readTree draft "(\nx) ]" nestedFaults = Outcome.fail (.syntaxErrors
        ["1:1: syntax error near '('", "2:3: missing 'end'", "2:4: syntax error near ']'"]) := by
  obtain ⟨told, stops⟩ := (diagnostics_sites nestedFaults).2 (by decide)
  have each : diagnostics (Source.ofText "(\nx) ]") nestedFaults =
      ["1:1: syntax error near '('", "2:3: missing 'end'", "2:4: syntax error near ']'"] := by
    rw [told]
    decide +kernel
  refine ⟨each, fun draft => ?_⟩
  rw [stops, each]
  rfl

end LiterateRuby.Ruby
