import LiterateRuby.Outline.Report
import LiterateRuby.Proofs.Forest.Nodes

/-! # Blocks within blocks

A forest is shown as one block for each branch, within the blocks of the branches above it (`blocks`).
What opens a block, and what it has besides the blocks in it, goes by the name of the branch and the unit
that shows there (`View`). Ruby code writes a block between its opening and `end`, the outline hangs it
below a label. So what is shown, and where, is told by the list of units (`forest_of_distinct`).
-/

namespace LiterateRuby.Branch

open Outline (Diagram)
open Render (Unwritable)

/-! ## Blocks -/

/-- What opens a block, what it has of its own, and the blocks in it. -/
inductive Block (α : Type) where
  | node (opening : String) (own : α) (inner : List (Block α))

namespace Block

mutual

/-- A block and the blocks in it, each with what opens the blocks around it and itself, the outermost
first. -/
def entries (around : List String) : Block α → List (List String × α)
  | .node opening own inner => (around ++ [opening], own) :: entriesAll (around ++ [opening]) inner

def entriesAll (around : List String) : List (Block α) → List (List String × α)
  | [] => []
  | block :: rest => entries around block ++ entriesAll around rest

end

mutual

/-- A block of code: its sections and then the blocks in it, up to an `end`. -/
def lines (indent : String) : Block (List (List String)) → List String
  | .node opening own inner =>
    opening :: Render.indentLines indent
      (Render.joinSections (own ++ [Render.joinSections (linesAll indent inner)])) ++ ["end"]

def linesAll (indent : String) : List (Block (List (List String))) → List (List String)
  | [] => []
  | block :: rest => lines indent block :: linesAll indent rest

end

mutual

/-- A block as a label: the labels of its parts hang below it, and then the blocks in it. -/
def diagram : Block (List String) → Diagram
  | .node label parts inner => .node label (parts.map (.node · []) ++ diagrams inner)

def diagrams : List (Block (List String)) → List Diagram
  | [] => []
  | block :: rest => diagram block :: diagrams rest

end

end Block

/-- The unit that shows of what a branch holds: a mere namespace does not. -/
def shown (held : Option RubyUnit) : Option RubyUnit := held.filter (!·.isNamespaceOnly)

private theorem shown_of_mere {unit : RubyUnit} (mere : unit.isNamespaceOnly = true) :
    shown (some unit) = none := by
  simp [shown, mere]

theorem shown_of_real {unit : RubyUnit} (real : unit.isNamespaceOnly = false) :
    shown (some unit) = some unit := by
  simp [shown, real]

/-- What opens a block and what it has of its own, by the name of the branch and the unit that shows. -/
structure View (α : Type) where
  opening : String → Option RubyUnit → String
  own : Option RubyUnit → Except Unwritable α

variable {α : Type}

mutual

def block (view : View α) : Branch → Except Unwritable (Block α)
  | .node name held children => do
    let inner ← blocks view children
    let own ← view.own (shown held)
    return .node (view.opening name (shown held)) own inner

def blocks (view : View α) : List Branch → Except Unwritable (List (Block α))
  | [] => return []
  | branch :: rest => return (← block view branch) :: (← blocks view rest)

end

private theorem block_node_eq_ok_iff {view : View α} {name : String} {held : Option RubyUnit}
    {children : List Branch} {made : Block α} :
    block view (.node name held children) = .ok made ↔
      ∃ inner own, blocks view children = .ok inner ∧ view.own (shown held) = .ok own ∧
        made = .node (view.opening name (shown held)) own inner := by
  rw [block]
  simp only [Except.bind_eq_ok_iff, pure, Except.pure, Except.ok.injEq]
  constructor
  · rintro ⟨inner, below, own, has, rfl⟩
    exact ⟨inner, own, below, has, rfl⟩
  · rintro ⟨inner, own, below, has, rfl⟩
    exact ⟨inner, below, own, has, rfl⟩

private theorem blocks_cons_eq_ok_iff {view : View α} {branch : Branch} {rest : List Branch}
    {made : List (Block α)} :
    blocks view (branch :: rest) = .ok made ↔
      ∃ first others, block view branch = .ok first ∧ blocks view rest = .ok others ∧
        made = first :: others := by
  rw [blocks]
  simp only [Except.bind_eq_ok_iff, pure, Except.pure, Except.ok.injEq]
  constructor
  · rintro ⟨first, here, others, beside, rfl⟩
    exact ⟨first, others, here, beside, rfl⟩
  · rintro ⟨first, others, here, beside, rfl⟩
    exact ⟨first, here, others, beside, rfl⟩

/-! ## Two ways to show a forest -/

/-- The view of Ruby code: a unit by its header and its sections. -/
def codeView (settings : RenderSettings) : View (List (List String)) where
  opening name unit := (unit.map Render.header).getD ("module " ++ name)
  own unit := (unit.map (Render.unitSections settings)).getD (.ok [])

/-- The view of the outline: a unit by its label and the labels of its parts. -/
def outlineView (settings : OutlineSettings) : View (List String) where
  opening name unit := (unit.map Outline.unitLabel).getD (Outline.wrapperLabel name)
  own unit := (unit.map (Outline.partLabels settings)).getD (.ok [])

mutual

/-- The code of a branch is that of its block. -/
theorem branchLines_eq_map (settings : RenderSettings) :
    ∀ branch, Render.branchLines settings branch =
      (block (codeView settings) branch).map (Block.lines settings.indent)
  | .node name held children => by
    rw [Render.branchLines_node, branchLinesAll_eq_map settings children, block]
    cases blocks (codeView settings) children with
    | error fault => rfl
    | ok inner =>
      rw [Render.shownUnit?, codeView, ← shown]
      cases shown held with
      | none => simp [Except.map, Block.lines, Render.joinSections_singleton, pure, Except.pure]
      | some unit =>
        dsimp only [Option.map_some, Option.getD_some]
        cases Render.unitSections settings unit <;> rfl

theorem branchLinesAll_eq_map (settings : RenderSettings) :
    ∀ branches, Render.branchLinesAll settings branches =
      (blocks (codeView settings) branches).map (Block.linesAll settings.indent)
  | [] => rfl
  | branch :: rest => by
    rw [Render.branchLinesAll, branchLines_eq_map settings branch, branchLinesAll_eq_map settings rest, blocks]
    cases block (codeView settings) branch with
    | error fault => rfl
    | ok first => cases blocks (codeView settings) rest <;> rfl

end

/-- The outline makes the labels of the parts of a branch before it looks below. -/
theorem branchDiagram_node (settings : OutlineSettings) (name : String) (held : Option RubyUnit)
    (children : List Branch) :
    Outline.branchDiagram settings (.node name held children) =
      ((outlineView settings).own (shown held) >>= fun parts =>
        Outline.branchDiagrams settings children >>= fun below =>
          .ok (.node ((outlineView settings).opening name (shown held))
            (parts.map (.node · []) ++ below))) := by
  rw [Outline.branchDiagram.eq_def]
  cases held with
  | none => rfl
  | some unit =>
    dsimp only
    cases real : unit.isNamespaceOnly with
    | true =>
      rw [shown_of_mere real]
      rfl
    | false =>
      rw [shown_of_real real, outlineView]
      dsimp only [Option.map_some, Option.getD_some]
      cases Outline.partLabels settings unit <;> rfl

mutual

/-- The label of a branch is that of its block. -/
theorem branchDiagram_eq_ok_iff {settings : OutlineSettings} :
    ∀ {branch : Branch} {diagram : Diagram}, Outline.branchDiagram settings branch = .ok diagram ↔
      ∃ made, block (outlineView settings) branch = .ok made ∧ diagram = made.diagram
  | .node name held children, diagram => by
    rw [branchDiagram_node]
    simp only [Except.bind_eq_ok_iff, block_node_eq_ok_iff, branchDiagrams_eq_ok_iff, Except.ok.injEq]
    constructor
    · rintro ⟨parts, has, below, ⟨inner, made, rfl⟩, rfl⟩
      exact ⟨_, ⟨inner, parts, made, has, rfl⟩, rfl⟩
    · rintro ⟨made, ⟨inner, parts, below, has, rfl⟩, rfl⟩
      exact ⟨parts, has, _, ⟨inner, below, rfl⟩, rfl⟩

theorem branchDiagrams_eq_ok_iff {settings : OutlineSettings} :
    ∀ {branches : List Branch} {diagrams : List Diagram},
      Outline.branchDiagrams settings branches = .ok diagrams ↔
        ∃ made, blocks (outlineView settings) branches = .ok made ∧ diagrams = Block.diagrams made
  | [], diagrams => by simp [Outline.branchDiagrams, blocks, pure, Except.pure, Block.diagrams, eq_comm]
  | branch :: rest, diagrams => by
    rw [Outline.branchDiagrams]
    simp only [Except.bind_eq_ok_iff, blocks_cons_eq_ok_iff, branchDiagram_eq_ok_iff, branchDiagrams_eq_ok_iff,
      pure, Except.pure, Except.ok.injEq]
    constructor
    · rintro ⟨_, ⟨first, here, rfl⟩, _, ⟨others, beside, rfl⟩, rfl⟩
      exact ⟨_, ⟨first, others, here, beside, rfl⟩, rfl⟩
    · rintro ⟨made, ⟨first, others, here, beside, rfl⟩, rfl⟩
      exact ⟨_, ⟨first, here, rfl⟩, _, ⟨others, beside, rfl⟩, rfl⟩

end

/-! ## A block for each branch -/

/-- What opens the blocks of the paths on the way to a path and its own, if units show at paths. -/
def openings (view : View α) (units : List String → Option RubyUnit) (path : List String) : List String :=
  path.inits.tail.map fun start => view.opening (start.getLastD "") (units start)

/-- A block stands for each path, in their order: within the blocks of the paths that start its own, and
with what its own unit has. -/
def StandFor (view : View α) (units : List String → Option RubyUnit) (paths : List (List String))
    (made : List (List String × α)) : Prop :=
  List.Forall₂ (fun path entry => entry.1 = openings view units path ∧ view.own (units path) = .ok entry.2)
    paths made

/-- Every block is there for a path, and every path has a block. -/
theorem StandFor.openings_eq {view : View α} {units : List String → Option RubyUnit}
    {paths : List (List String)} {made : List (List String × α)} (stand : StandFor view units paths made) :
    made.map (·.1) = paths.map (openings view units) := by
  induction stand with
  | nil => rfl
  | cons first others ih => rw [List.map_cons, List.map_cons, first.1, ih]

private theorem openings_concat (view : View α) (units : List String → Option RubyUnit) (above : List String)
    (name : String) :
    openings view units (above ++ [name]) =
      openings view units above ++ [view.opening name (units (above ++ [name]))] := by
  have starts : (above ++ [name]).inits.tail = above.inits.tail ++ [above ++ [name]] := by
    rw [List.inits_append, List.tail_append_of_ne_nil (by cases above <;> simp)]
    rfl
  rw [openings, starts, List.map_append, List.map_singleton, List.getLastD_concat]
  rfl

/-- What is so of all blocks is so at all paths. -/
theorem StandFor.forall_iff {view : View α} {units : List String → Option RubyUnit} {paths : List (List String)}
    {made : List (List String × α)} (stand : StandFor view units paths made) (given : ∀ path ∈ paths, path ≠ [])
    (holds : String → α → Prop) :
    (∀ entry ∈ made, holds (entry.1.getLastD "") entry.2) ↔
      ∀ path ∈ paths, ∃ own, view.own (units path) = .ok own ∧
        holds (view.opening (path.getLastD "") (units path)) own := by
  induction stand with
  | nil => simp
  | @cons path entry rest others here _ ih =>
    obtain ⟨above, name, rfl⟩ : ∃ above name, path = above ++ [name] :=
      ⟨_, _, (List.dropLast_append_getLast (given path List.mem_cons_self)).symm⟩
    obtain ⟨around, own⟩ := here
    have opening : entry.1.getLastD "" = view.opening ((above ++ [name]).getLastD "") (units (above ++ [name])) := by
      rw [around, openings_concat, List.getLastD_concat, List.getLastD_concat]
    have first : holds (entry.1.getLastD "") entry.2 ↔ ∃ own, view.own (units (above ++ [name])) = .ok own ∧
        holds (view.opening ((above ++ [name]).getLastD "") (units (above ++ [name]))) own := by
      rw [opening, own]
      simp
    rw [List.forall_mem_cons, List.forall_mem_cons, first,
      ih fun other member => given other (List.mem_cons_of_mem _ member)]

mutual

theorem standFor_entries {view : View α} {units : List String → Option RubyUnit} {above : List String} :
    ∀ {branch : Branch} {made : Block α}, block view branch = .ok made →
      (∀ path held, (path, held) ∈ entries above branch → units path = shown held) →
      StandFor view units ((entries above branch).map (·.1)) (made.entries (openings view units above))
  | .node name held children, made, success, shows => by
    obtain ⟨inner, own, below, has, rfl⟩ := block_node_eq_ok_iff.mp success
    have here : units (above ++ [name]) = shown held := shows _ _ (by rw [entries]; exact List.mem_cons_self)
    have around := openings_concat view units above name
    rw [here] at around
    have within : StandFor view units ((entriesAll (above ++ [name]) children).map (·.1))
        (Block.entriesAll (openings view units (above ++ [name])) inner) :=
      standFor_entriesAll below fun path held listed =>
        shows path held (by rw [entries]; exact List.mem_cons_of_mem _ listed)
    rw [entries, Block.entries, ← around, List.map_cons]
    exact .cons ⟨rfl, by rw [here, has]⟩ within

/-- The blocks of branches stand for their paths. -/
theorem standFor_entriesAll {view : View α} {units : List String → Option RubyUnit} {above : List String} :
    ∀ {branches : List Branch} {made : List (Block α)}, blocks view branches = .ok made →
      (∀ path held, (path, held) ∈ entriesAll above branches → units path = shown held) →
      StandFor view units ((entriesAll above branches).map (·.1))
        (Block.entriesAll (openings view units above) made)
  | [], made, success, _ => by
    cases success
    exact .nil
  | branch :: rest, made, success, shows => by
    obtain ⟨first, others, here, beside, rfl⟩ := blocks_cons_eq_ok_iff.mp success
    rw [entriesAll] at shows
    rw [entriesAll, Block.entriesAll, List.map_append]
    exact List.rel_append
      (standFor_entries here fun path held listed => shows path held (List.mem_append_left _ listed))
      (standFor_entriesAll beside fun path held listed => shows path held (List.mem_append_right _ listed))

end

mutual

theorem block_succeeds_iff {view : View α} (above : List String) :
    ∀ {branch : Branch}, (∃ made, block view branch = .ok made) ↔
      ∀ path held, (path, held) ∈ entries above branch → ∃ own, view.own (shown held) = .ok own
  | .node name held children => by
    simp only [block_node_eq_ok_iff, entries, List.mem_cons, Prod.mk.injEq]
    constructor
    · rintro ⟨made, inner, own, below, has, _⟩ path unit (⟨_, rfl⟩ | listed)
      · exact ⟨own, has⟩
      · exact (blocks_succeed_iff (above ++ [name])).mp ⟨inner, below⟩ path unit listed
    · intro each
      obtain ⟨own, has⟩ := each _ _ (.inl ⟨rfl, rfl⟩)
      obtain ⟨inner, below⟩ := (blocks_succeed_iff (above ++ [name])).mpr fun path unit listed =>
        each path unit (.inr listed)
      exact ⟨_, inner, own, below, has, rfl⟩

/-- Branches are shown as blocks if each has what it is to have of its own. -/
theorem blocks_succeed_iff {view : View α} (above : List String) :
    ∀ {branches : List Branch}, (∃ made, blocks view branches = .ok made) ↔
      ∀ path held, (path, held) ∈ entriesAll above branches → ∃ own, view.own (shown held) = .ok own
  | [] => ⟨fun _ _ _ listed => absurd listed List.not_mem_nil, fun _ => ⟨[], rfl⟩⟩
  | branch :: rest => by
    simp only [blocks_cons_eq_ok_iff, entriesAll, List.mem_append]
    constructor
    · rintro ⟨made, first, others, here, beside, _⟩ path held (listed | listed)
      · exact (block_succeeds_iff above).mp ⟨first, here⟩ path held listed
      · exact (blocks_succeed_iff above).mp ⟨others, beside⟩ path held listed
    · intro each
      obtain ⟨first, here⟩ :=
        (block_succeeds_iff above).mpr fun path held listed => each path held (.inl listed)
      obtain ⟨others, beside⟩ :=
        (blocks_succeed_iff above).mpr fun path held listed => each path held (.inr listed)
      exact ⟨_, first, others, here, beside, rfl⟩

end

/-! ## The forest of a list of units -/

/-- The branches of a forest, as a list of units tells them. -/
structure NodesOf (units : List RubyUnit) (branches : List Branch) : Prop where
  /-- The paths are those that start the path of a unit. -/
  paths : ∀ path, path ∈ (entriesAll [] branches).map (·.1) ↔
    path ≠ [] ∧ ∃ unit ∈ units, path <+: unit.path
  once : ((entriesAll [] branches).map (·.1)).Nodup
  /-- A branch holds the unit with its path, and no other. -/
  held : ∀ path held, (path, held) ∈ entriesAll [] branches →
    ∀ unit, held = some unit ↔ unit ∈ units ∧ unit.path = path
  /-- Siblings come in the order in which a path through them first occurs. -/
  siblings : ∀ above, childNames above branches =
    Text.distinct (units.filterMap fun unit => nextSegment? above unit.path)

theorem nodesOf_forest {units : List RubyUnit} (apart : (units.map (·.path)).Nodup) :
    NodesOf units (forest units) where
  paths path := by
    simp only [List.mem_map, Prod.exists, mem_entriesAll (distinctAll_forest units), List.nil_append]
    constructor
    · rintro ⟨_, held, ⟨_, rfl, met⟩, rfl⟩
      exact ⟨met.given, (hasPath_forest_iff met.given).mp met.leads⟩
    · rintro ⟨given, starts⟩
      exact ⟨path, _, ⟨path, rfl, given, (hasPath_forest_iff given).mpr starts, rfl⟩, rfl⟩
  once := nodup_entriesAll (distinctAll_forest units)
  held path held listed unit := by
    obtain ⟨below, rfl, met⟩ := (mem_entriesAll (distinctAll_forest units)).mp listed
    rw [met.holds]
    exact unitAt_forest_eq_some_iff apart
  siblings := fun above => childNames_forest above units

/-- The unit of a list that shows at a path. -/
def shownAt? (units : List RubyUnit) (path : List String) : Option RubyUnit :=
  units.find? fun unit => unit.path == path && !unit.isNamespaceOnly

theorem shownAt?_eq_some {units : List RubyUnit} {path : List String} {unit : RubyUnit}
    (found : shownAt? units path = some unit) :
    unit ∈ units ∧ unit.path = path ∧ unit.isNamespaceOnly = false := by
  have same := List.find?_some found
  exact ⟨List.mem_of_find?_eq_some found, by simpa using same⟩

theorem NodesOf.shownAt?_eq {units : List RubyUnit} {branches : List Branch} (nodes : NodesOf units branches)
    {path : List String} {held : Option RubyUnit} (listed : (path, held) ∈ entriesAll [] branches) :
    shownAt? units path = shown held := by
  cases found : shownAt? units path with
  | some unit =>
    obtain ⟨same, real⟩ : unit.path = path ∧ unit.isNamespaceOnly = false := by
      simpa using List.find?_some found
    have here := (nodes.held path held listed unit).mpr ⟨List.mem_of_find?_eq_some found, same⟩
    rw [here, shown_of_real real]
  | none =>
    cases held with
    | none => rfl
    | some unit =>
      obtain ⟨member, same⟩ := (nodes.held path (some unit) listed unit).mp rfl
      have mere : unit.isNamespaceOnly = true := by simpa [same] using List.find?_eq_none.mp found unit member
      rw [shown_of_mere mere]

theorem NodesOf.mem_listed {units : List RubyUnit} {branches : List Branch} (nodes : NodesOf units branches)
    {unit : RubyUnit} (member : unit ∈ units) : (unit.path, some unit) ∈ entriesAll [] branches := by
  obtain ⟨⟨path, held⟩, listed, rfl⟩ := List.mem_map.mp
    ((nodes.paths unit.path).mpr ⟨path_ne_nil unit, unit, member, List.prefix_rfl⟩)
  rwa [(nodes.held _ held listed unit).mpr ⟨member, rfl⟩] at listed

/-- What is drawn of a list of units is drawn of blocks that stand for the branches of their forest. -/
structure ShownAs (view : View α) (units : List RubyUnit) (draw : List (Block α) → β)
    (drawn : Except Unwritable β) : Prop where
  /-- Nothing stands against it but a unit with a part that cannot be written. -/
  succeeds : (∃ result, drawn = .ok result) ↔
    ∀ unit ∈ units, unit.isNamespaceOnly = false → ∃ own, view.own (some unit) = .ok own
  blocks : ∀ result, drawn = .ok result → ∃ made, result = draw made ∧
    StandFor view (shownAt? units) ((entriesAll [] (forest units)).map (·.1)) (Block.entriesAll [] made)

private theorem shownAs_of_nodes {view : View α} {units : List RubyUnit} {draw : List (Block α) → β}
    {drawn : Except Unwritable β} (nodes : NodesOf units (forest units))
    (empty : ∃ own, view.own none = .ok own)
    (draws : ∀ result, drawn = .ok result ↔
      ∃ made, blocks view (forest units) = .ok made ∧ result = draw made) :
    ShownAs view units draw drawn where
  succeeds := by
    have made : (∃ result, drawn = .ok result) ↔ ∃ made, blocks view (forest units) = .ok made := by
      simp only [draws]
      constructor
      · rintro ⟨_, made, success, _⟩
        exact ⟨made, success⟩
      · rintro ⟨made, success⟩
        exact ⟨_, made, success, rfl⟩
    rw [made, blocks_succeed_iff []]
    constructor
    · intro each unit member real
      rw [← shown_of_real real]
      exact each unit.path (some unit) (nodes.mem_listed member)
    · intro each path held listed
      cases shows : shown held with
      | none => exact empty
      | some unit =>
        obtain ⟨rfl, real⟩ : held = some unit ∧ unit.isNamespaceOnly = false := by
          simpa [shown, Option.filter_eq_some_iff] using shows
        exact each unit ((nodes.held path _ listed unit).mp rfl).1 real
  blocks result success := by
    obtain ⟨made, shows, rfl⟩ := (draws result).mp success
    exact ⟨made, rfl, standFor_entriesAll shows fun path held listed => nodes.shownAt?_eq listed⟩

/-- The code of a forest is that of its blocks. -/
theorem shownAs_code {units : List RubyUnit} (nodes : NodesOf units (forest units)) (settings : RenderSettings) :
    ShownAs (codeView settings) units (Block.linesAll settings.indent)
      (Render.branchLinesAll settings (forest units)) := by
  refine shownAs_of_nodes nodes ⟨[], rfl⟩ fun result => ?_
  rw [branchLinesAll_eq_map]
  cases blocks (codeView settings) (forest units) <;> simp [Except.map, eq_comm]

/-- Nothing stands against writing units with names of their own as code but what stands against their parts. -/
theorem ruby_succeeds (settings : RenderSettings) {document : Document}
    (apart : (document.units.map (·.qualifiedName)).Nodup)
    (each : ∀ unit ∈ document.units, ∃ parts, Render.unitSections settings unit = .ok parts) :
    ∃ code, Render.ruby settings document = .ok code := by
  have nodes := nodesOf_forest (nodup_path_of_names apart)
  have made : ∃ made, blocks (codeView settings) (forest document.units) = .ok made := by
    refine (blocks_succeed_iff []).mpr fun path held listed => ?_
    cases shows : shown held with
    | none => exact ⟨[], rfl⟩
    | some unit =>
      obtain ⟨rfl, _⟩ : held = some unit ∧ unit.isNamespaceOnly = false := by
        simpa [shown, Option.filter_eq_some_iff] using shows
      exact each unit ((nodes.held path _ listed unit).mp rfl).1
  obtain ⟨made, success⟩ := made
  rw [Render.ruby, Render.rubyLines, branchLinesAll_eq_map, success]
  exact ⟨_, rfl⟩

/-- However units with names of their own are nested and ordered, each stands at its path in the forest,
among the branches of the paths that start it. Code and outline show one block for each branch, within the
blocks of the branches above. -/
theorem forest_of_distinct {units : List RubyUnit} (apart : (units.map (·.qualifiedName)).Nodup) :
    NodesOf units (forest units) ∧
      (∀ settings : RenderSettings, ShownAs (codeView settings) units (Block.linesAll settings.indent)
        (Render.branchLinesAll settings (forest units))) ∧
      (∀ settings : OutlineSettings, ShownAs (outlineView settings) units Block.diagrams
        (Outline.branchDiagrams settings (forest units))) := by
  have nodes := nodesOf_forest (nodup_path_of_names apart)
  exact ⟨nodes, shownAs_code nodes, fun settings =>
    shownAs_of_nodes nodes ⟨[], rfl⟩ fun result => branchDiagrams_eq_ok_iff⟩

/-- A class or module without contents. -/
def bare (kind : RubyUnit.Kind) (scope : List String) (name : String) : RubyUnit :=
  UnitDraft.plain { name, kind, scope }

/-- A class before the class around it, whose namespace no unit stands for, and a module with the name of the
former. -/
def childFirst : List RubyUnit :=
  [bare .cls ["Shop", "Cart"] "Item", bare .mod [] "Item",
    { bare .cls ["Shop"] "Cart" with nature := .cls (some "List") }]

/-- Three units make four branches, the first of them for a module that none of them is. -/
theorem forest_of_distinct_child_first :
    (childFirst.map (·.qualifiedName)).Nodup ∧ NodesOf childFirst (forest childFirst) ∧
      (∃ made : List (Block (List (List String))),
        Render.branchLinesAll .default (forest childFirst) = .ok (Block.linesAll "  " made) ∧
          (Block.entriesAll [] made).map (·.1) =
            [["module Shop"], ["module Shop", "class Cart < List"],
              ["module Shop", "class Cart < List", "class Item"], ["module Item"]]) ∧
      ∃ made : List (Block (List String)),
        Outline.branchDiagrams .default (forest childFirst) = .ok (Block.diagrams made) ∧
          (Block.entriesAll [] made).map (·.1.getLastD "") =
            ["[dim]module Shop[/dim] [dim](namespace)[/dim]", "[bold cyan]class[/bold cyan] Shop::Cart < List",
              "[bold cyan]class[/bold cyan] Shop::Cart::Item", "[bold cyan]module[/bold cyan] Item"] := by
  have apart : (childFirst.map (·.qualifiedName)).Nodup := by decide
  obtain ⟨nodes, code, outline⟩ := forest_of_distinct apart
  have written : ∀ unit ∈ childFirst, ((codeView .default).own (some unit)).isOk = true := by decide +kernel
  have labelled : ∀ unit ∈ childFirst, ((outlineView .default).own (some unit)).isOk = true := by
    decide +kernel
  refine ⟨apart, nodes, ?_, ?_⟩
  · obtain ⟨lines, success⟩ := (code .default).succeeds.mpr fun unit member _ =>
      Except.exists_of_isOk (written unit member)
    obtain ⟨made, rfl, stand⟩ := (code .default).blocks lines success
    refine ⟨made, success, ?_⟩
    rw [stand.openings_eq]
    decide +kernel
  · obtain ⟨diagrams, success⟩ := (outline .default).succeeds.mpr fun unit member _ =>
      Except.exists_of_isOk (labelled unit member)
    obtain ⟨made, rfl, stand⟩ := (outline .default).blocks diagrams success
    have labels : (Block.entriesAll [] made).map (fun entry => entry.1.getLastD "") =
        ((Block.entriesAll [] made).map (·.1)).map (·.getLastD "") := by rw [List.map_map]; rfl
    refine ⟨made, success, ?_⟩
    rw [labels, stand.openings_eq]
    decide +kernel

end LiterateRuby.Branch
