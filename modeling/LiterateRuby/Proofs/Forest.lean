import LiterateRuby.Forest
import LiterateRuby.Proofs.FirstSeen
import LiterateRuby.Proofs.Outcome
import LiterateRuby.Render.Ruby

/-! # What a forest of namespaces depends on

A forest is known by its shape and by the unit at each path (`fillAll_unitAt`). Its shape is made by the
paths of its units alone, and a path that starts another one leaves no trace when it comes right before it
(`addPath_absorb`). Forests of one shape are rendered alike if the units at each path are
(`branchLinesAll_fillAll`): a path without a unit shows as a mere namespace does.
-/

namespace LiterateRuby.Branch

/-! ## One level -/

@[simp] theorem name_node (name : String) (unit : Option RubyUnit) (children : List Branch) :
    (node name unit children).name = name := rfl

@[simp] theorem unit?_node (name : String) (unit : Option RubyUnit) (children : List Branch) :
    (node name unit children).unit? = unit := rfl

@[simp] theorem children_node (name : String) (unit : Option RubyUnit) (children : List Branch) :
    (node name unit children).children = children := rfl

def named? (name : String) (branches : List Branch) : Option Branch :=
  branches.find? fun branch => branch.name == name

def namedOrNew (name : String) (branches : List Branch) : Branch :=
  (named? name branches).getD (.node name none [])

theorem named?_cons (name : String) (branch : Branch) (rest : List Branch) :
    named? name (branch :: rest) = if branch.name = name then some branch else named? name rest := by
  simp only [named?, List.find?_cons, beq_eq_decide]
  by_cases same : branch.name = name <;> simp [same]

/-- Changing the branch of a name changes what is found under this name only. -/
theorem named?_place {name : String} {grow : Branch → Branch}
    (keeps : ∀ branch, (grow branch).name = branch.name) (asked : String) (branches : List Branch) :
    named? asked (place name grow branches) =
      if asked = name then some (grow (namedOrNew name branches)) else named? asked branches := by
  induction branches with
  | nil =>
    rw [place, named?_cons, keeps, name_node]
    by_cases same : asked = name
    · simp [same, namedOrNew, named?]
    · simp [same, Ne.symm same]
  | cons branch rest ih =>
    rw [place]
    by_cases here : branch.name = name
    · rw [if_pos here, named?_cons, named?_cons, keeps, here]
      by_cases same : asked = name
      · simp [same, namedOrNew, named?_cons, here]
      · simp [same, Ne.symm same]
    · rw [if_neg here, named?_cons, named?_cons, ih]
      by_cases same : asked = name
      · subst same
        simp [here, namedOrNew, named?_cons]
      · simp [same]

/-- Two changes of one branch are one change. -/
theorem place_place {name : String} {first second : Branch → Branch}
    (keeps : ∀ branch, (first branch).name = branch.name) (branches : List Branch) :
    place name second (place name first branches) = place name (fun branch => second (first branch)) branches := by
  induction branches with
  | nil => simp [place, keeps]
  | cons branch rest ih =>
    rw [place, place]
    split
    · next here => rw [place, if_pos (by rw [keeps, here])]
    · next other => rw [place, if_neg other, ih]

/-- A change that leaves the branch of a name as it is leaves all as it is. -/
theorem place_eq_self {name : String} {grow : Branch → Branch} {branches : List Branch} {branch : Branch}
    (found : named? name branches = some branch) (same : grow branch = branch) :
    place name grow branches = branches := by
  induction branches with
  | nil => cases found
  | cons first rest ih =>
    rw [named?_cons] at found
    rw [place]
    split at found
    · next here =>
      cases found
      rw [if_pos here, same]
    · next other => rw [if_neg other, ih found]

/-! ## Shapes -/

mutual

/-- A branch with the units that a function gives to its paths. -/
def fill (units : List String → Option RubyUnit) : Branch → Branch
  | .node name _ children =>
    .node name (units [name]) (fillAll (fun path => units (name :: path)) children)

/-- Branches with the units that a function gives to their paths. -/
def fillAll (units : List String → Option RubyUnit) : List Branch → List Branch
  | [] => []
  | branch :: rest => fill units branch :: fillAll units rest

end

@[simp] theorem name_fill (units : List String → Option RubyUnit) (branch : Branch) :
    (fill units branch).name = branch.name := by
  cases branch
  rfl

/-- Branches without units: the shape of a forest. -/
def shape (branches : List Branch) : List Branch := fillAll (fun _ => none) branches

mutual

theorem fill_fill (first second : List String → Option RubyUnit) :
    ∀ branch, fill second (fill first branch) = fill second branch
  | .node name unit children => by
    simp only [fill, fillAll_fillAll]

theorem fillAll_fillAll (first second : List String → Option RubyUnit) :
    ∀ branches, fillAll second (fillAll first branches) = fillAll second branches
  | [] => rfl
  | branch :: rest => by
    simp only [fillAll, fill_fill first second branch, fillAll_fillAll first second rest]

end

/-- What is filled into a forest goes by its shape. -/
theorem fillAll_of_shape {first second : List Branch} (same : shape first = shape second)
    (units : List String → Option RubyUnit) : fillAll units first = fillAll units second := by
  rw [← fillAll_fillAll (fun _ => none) units first, ← fillAll_fillAll (fun _ => none) units second]
  exact congrArg (fillAll units) same

def addPath : List String → List Branch → List Branch
  | [], branches => branches
  | segment :: rest, branches =>
    place segment (fun branch => .node branch.name branch.unit? (addPath rest branch.children)) branches

def addPaths (paths : List (List String)) (branches : List Branch) : List Branch :=
  paths.foldl (fun branches path => addPath path branches) branches

theorem addPaths_append (first second : List (List String)) (branches : List Branch) :
    addPaths (first ++ second) branches = addPaths second (addPaths first branches) := List.foldl_append

private theorem shape_place {name : String} {grow bare : Branch → Branch}
    (keeps : ∀ branch, fill (fun _ => none) (grow branch) = bare (fill (fun _ => none) branch))
    (branches : List Branch) :
    shape (place name grow branches) = place name bare (shape branches) := by
  induction branches with
  | nil =>
    have fresh := keeps (.node name none [])
    simp only [shape, place, fillAll, fresh]
    rfl
  | cons branch rest ih =>
    simp only [shape] at ih ⊢
    rw [place, fillAll, place, name_fill]
    split
    · rw [fillAll, keeps]
    · rw [fillAll, ih]

private theorem insert_cons (unit : RubyUnit) (segment : String) {rest : List String} (more : rest ≠ [])
    (branches : List Branch) :
    insert unit (segment :: rest) branches =
      place segment
        (fun branch => .node branch.name branch.unit? (insert unit rest branch.children)) branches := by
  rw [insert]
  exact more

/-- Where a unit is put decides the shape, not which one it is. -/
theorem shape_insert (unit : RubyUnit) (path : List String) (branches : List Branch) :
    shape (insert unit path branches) = addPath path (shape branches) := by
  induction path generalizing branches with
  | nil => rfl
  | cons segment rest ih =>
    cases rest with
    | nil =>
      rw [insert, addPath]
      apply shape_place
      intro branch
      cases branch
      rfl
    | cons next following =>
      rw [insert_cons unit segment (List.cons_ne_nil next following), addPath]
      apply shape_place
      intro branch
      obtain ⟨name, held, children⟩ := branch
      have inner := ih children
      simp only [shape] at inner
      simp only [fill, children_node, name_node, unit?_node, inner]

theorem shape_forest (units : List RubyUnit) :
    shape (forest units) = addPaths (units.map (·.path)) [] := by
  induction units using List.reverseRecOn with
  | nil => rfl
  | append_singleton units last ih =>
    rw [List.map_append, addPaths_append, ← ih, forest, List.foldl_append]
    exact shape_insert last last.path (forest units)

/-- A path right before one that it starts leaves no trace. -/
theorem addPath_absorb (start more : List String) (branches : List Branch) :
    addPath (start ++ more) (addPath start branches) = addPath (start ++ more) branches := by
  induction start generalizing branches with
  | nil => rfl
  | cons segment rest ih =>
    rw [List.cons_append, addPath, addPath, place_place (by intro branch; rfl), addPath]
    simp only [name_node, unit?_node, children_node, ih]

/-- Whether a path leads through a forest. -/
def HasPath : List String → List Branch → Prop
  | [], _ => True
  | segment :: rest, branches =>
    ∃ branch, named? segment branches = some branch ∧ HasPath rest branch.children

private theorem HasPath.addPath_eq {path : List String} {branches : List Branch} (has : HasPath path branches) :
    addPath path branches = branches := by
  induction path generalizing branches with
  | nil => rfl
  | cons segment rest ih =>
    obtain ⟨branch, found, below⟩ := has
    rw [addPath]
    apply place_eq_self found
    rw [ih below]
    cases branch
    rfl

/-- A path that is added leads through its prefixes. -/
theorem hasPath_addPath_iff {path other : List String} {branches : List Branch} :
    HasPath path (addPath other branches) ↔ HasPath path branches ∨ path <+: other := by
  induction other generalizing path branches with
  | nil =>
    rw [addPath, List.prefix_nil]
    constructor
    · exact .inl
    · rintro (has | rfl)
      · exact has
      · trivial
  | cons segment rest ih =>
    cases path with
    | nil => simp [HasPath]
    | cons asked below =>
      rw [addPath, HasPath, HasPath, named?_place (by intro branch; rfl), List.cons_prefix_cons]
      by_cases same : asked = segment
      · subst same
        rw [if_pos rfl]
        have fresh : below ≠ [] → ¬HasPath below [] := by
          intro given
          obtain ⟨next, more, rfl⟩ := List.exists_cons_of_ne_nil given
          rintro ⟨branch, found, _⟩
          cases found
        cases found : named? asked branches with
        | some branch => simp [namedOrNew, found, ih]
        | none =>
          have held : namedOrNew asked branches = .node asked none [] := by rw [namedOrNew, found]; rfl
          simp only [Option.some.injEq, exists_eq_left', held, children_node, ih, true_and]
          by_cases ends : below = []
          · simp [ends]
          · simp [fresh ends]
      · simp [same]

private theorem hasPath_addPaths {paths : List (List String)} {path : List String} (member : path ∈ paths)
    (branches : List Branch) : HasPath path (addPaths paths branches) := by
  induction paths using List.reverseRecOn generalizing branches with
  | nil => cases member
  | append_singleton paths last ih =>
    rw [addPaths_append]
    apply hasPath_addPath_iff.mpr
    rcases List.mem_append.mp member with old | new
    · exact .inl (ih old branches)
    · exact .inr (List.mem_singleton.mp new ▸ List.prefix_rfl)

/-- A path that comes again leaves no trace. -/
theorem addPaths_distinct (paths : List (List String)) :
    addPaths (Text.distinct paths) [] = addPaths paths [] := by
  induction paths using List.reverseRecOn with
  | nil => rfl
  | append_singleton paths last ih =>
    rw [Text.distinct_concat, addPaths_append]
    split
    · next seen =>
      have member : last ∈ paths := Text.mem_distinct.mp (List.contains_iff_mem.mp seen)
      rw [ih]
      exact ((hasPath_addPaths member []).addPath_eq).symm
    · rw [addPaths_append, ih]

/-! ## The unit at each path -/

def unitAt : List String → List Branch → Option RubyUnit
  | [], _ => none
  | [last], branches => (named? last branches).bind unit?
  | segment :: rest, branches => (named? segment branches).bind fun branch => unitAt rest branch.children

theorem unitAt_cons (segment : String) {rest : List String} (more : rest ≠ []) (branches : List Branch) :
    unitAt (segment :: rest) branches =
      (named? segment branches).bind fun branch => unitAt rest branch.children := by
  rw [unitAt]
  exact more

@[simp] theorem unitAt_empty (path : List String) : unitAt path [] = none := by
  rcases path with _ | ⟨segment, _ | ⟨next, rest⟩⟩ <;> rfl

/-- Putting a unit at a path changes what is found there and nowhere else. -/
theorem unitAt_insert (unit : RubyUnit) {path : List String} (given : path ≠ []) (asked : List String)
    (branches : List Branch) :
    unitAt asked (insert unit path branches) = if asked = path then some unit else unitAt asked branches := by
  induction path generalizing asked branches with
  | nil => exact absurd rfl given
  | cons segment rest ih =>
    rcases asked with _ | ⟨first, below⟩
    · simp [unitAt]
    · cases rest with
      | nil =>
        rw [insert]
        have found := @named?_place segment (fun branch => .node branch.name (some unit) branch.children)
          (by intro branch; rfl) first branches
        by_cases same : first = segment
        · subst same
          rw [if_pos rfl] at found
          cases below with
          | nil => simp [unitAt, found]
          | cons next more =>
            rw [unitAt_cons _ (by simp), unitAt_cons _ (by simp), found, namedOrNew]
            cases named? first branches <;> simp
        · rw [if_neg same] at found
          cases below with
          | nil => simp [unitAt, found, same]
          | cons next more => simp [unitAt, found, same]
      | cons second more =>
        rw [insert_cons unit segment (List.cons_ne_nil second more)]
        have found := @named?_place segment
          (fun branch => .node branch.name branch.unit? (insert unit (second :: more) branch.children))
          (by intro branch; rfl) first branches
        by_cases same : first = segment
        · subst same
          rw [if_pos rfl] at found
          cases below with
          | nil =>
            rw [unitAt, unitAt, found, namedOrNew]
            cases named? first branches <;> simp
          | cons next following =>
            rw [unitAt_cons _ (by simp), unitAt_cons _ (by simp), found, namedOrNew]
            have inner := ih (List.cons_ne_nil second more) (next :: following)
            cases named? first branches <;> simp [inner]
        · rw [if_neg same] at found
          cases below with
          | nil => simp [unitAt, found, same]
          | cons next following => simp [unitAt, found, same]

theorem forest_append_singleton (units : List RubyUnit) (last : RubyUnit) :
    forest (units ++ [last]) = insert last last.path (forest units) := by
  rw [forest, List.foldl_append]
  rfl

theorem path_ne_nil (unit : RubyUnit) : unit.path ≠ [] := by simp [RubyUnit.path]

private theorem place_ne_nil (name : String) (grow : Branch → Branch) (branches : List Branch) :
    place name grow branches ≠ [] := by
  cases branches with
  | nil => simp [place]
  | cons branch rest =>
    rw [place]
    split <;> simp

private theorem insert_ne_nil (unit : RubyUnit) {path : List String} (given : path ≠ []) (branches : List Branch) :
    insert unit path branches ≠ [] := by
  rcases path with _ | ⟨segment, _ | ⟨next, rest⟩⟩
  · exact absurd rfl given
  · exact place_ne_nil _ _ _
  · exact place_ne_nil _ _ _

/-- A forest without branches is one of no units. -/
theorem forest_eq_nil_iff {units : List RubyUnit} : forest units = [] ↔ units = [] := by
  cases units using List.reverseRecOn with
  | nil => simp [forest]
  | append_singleton before last =>
    rw [forest_append_singleton]
    simp [insert_ne_nil last (path_ne_nil last)]

theorem unitAt_forest_of_absent {units : List RubyUnit} {path : List String}
    (absent : ∀ unit ∈ units, unit.path ≠ path) : unitAt path (forest units) = none := by
  induction units using List.reverseRecOn with
  | nil => exact unitAt_empty path
  | append_singleton units last ih =>
    have other := absent last (List.mem_append_right _ (List.mem_singleton_self last))
    rw [forest_append_singleton, unitAt_insert last (path_ne_nil last), if_neg (Ne.symm other)]
    exact ih fun unit member => absent unit (List.mem_append_left _ member)

/-- Units with names of their own have paths of their own. -/
theorem nodup_path_of_names {units : List RubyUnit} (once : (units.map (·.qualifiedName)).Nodup) :
    (units.map (·.path)).Nodup := by
  apply List.Nodup.of_map Text.joinScope
  rwa [List.map_map]

/-- Units with paths of their own are found at their paths. -/
theorem unitAt_forest_of_mem {units : List RubyUnit} (distinct : (units.map (·.path)).Nodup)
    {unit : RubyUnit} (member : unit ∈ units) : unitAt unit.path (forest units) = some unit := by
  induction units using List.reverseRecOn with
  | nil => cases member
  | append_singleton units last ih =>
    rw [List.map_append, List.nodup_append] at distinct
    obtain ⟨before, _, apart⟩ := distinct
    rw [forest_append_singleton, unitAt_insert last (path_ne_nil last)]
    rcases List.mem_append.mp member with old | new
    · have other : unit.path ≠ last.path :=
        apart unit.path (List.mem_map_of_mem old) last.path (by simp)
      rw [if_neg other]
      exact ih before old
    · rw [List.mem_singleton.mp new, if_pos rfl]

theorem unitAt_forest_eq_some_iff {units : List RubyUnit} (distinct : (units.map (·.path)).Nodup)
    {path : List String} {unit : RubyUnit} :
    unitAt path (forest units) = some unit ↔ unit ∈ units ∧ unit.path = path := by
  constructor
  · intro found
    by_cases given : ∃ other ∈ units, other.path = path
    · obtain ⟨other, member, rfl⟩ := given
      rw [unitAt_forest_of_mem distinct member] at found
      cases found
      exact ⟨member, rfl⟩
    · rw [unitAt_forest_of_absent fun other member same => given ⟨other, member, same⟩] at found
      cases found
  · rintro ⟨member, rfl⟩
    exact unitAt_forest_of_mem distinct member

mutual

/-- No two branches below have one name. -/
def Distinct : Branch → Prop
  | .node _ _ children => DistinctAll children

def DistinctAll : List Branch → Prop
  | [] => True
  | branch :: rest => named? branch.name rest = none ∧ Distinct branch ∧ DistinctAll rest

end

private theorem distinctAll_place {name : String} {grow : Branch → Branch}
    (keeps : ∀ branch, (grow branch).name = branch.name)
    (grows : ∀ branch, Distinct branch → Distinct (grow branch)) {branches : List Branch}
    (distinct : DistinctAll branches) : DistinctAll (place name grow branches) := by
  induction branches with
  | nil => exact ⟨rfl, grows _ trivial, trivial⟩
  | cons branch rest ih =>
    obtain ⟨fresh, first, later⟩ := distinct
    rw [place]
    split
    · exact ⟨by rwa [keeps], grows branch first, later⟩
    · next other => exact ⟨by rwa [named?_place keeps, if_neg other], first, ih later⟩

private theorem distinctAll_insert (unit : RubyUnit) (path : List String) {branches : List Branch}
    (distinct : DistinctAll branches) : DistinctAll (insert unit path branches) := by
  induction path generalizing branches with
  | nil => exact distinct
  | cons segment rest ih =>
    cases rest with
    | nil =>
      rw [insert]
      apply distinctAll_place (by intro branch; rfl) _ distinct
      intro branch held
      cases branch
      exact held
    | cons next following =>
      rw [insert_cons unit segment (List.cons_ne_nil next following)]
      apply distinctAll_place (by intro branch; rfl) _ distinct
      intro branch held
      obtain ⟨name, inner, children⟩ := branch
      exact ih held

theorem distinctAll_forest (units : List RubyUnit) : DistinctAll (forest units) := by
  induction units using List.reverseRecOn with
  | nil => trivial
  | append_singleton units last ih =>
    rw [forest_append_singleton]
    exact distinctAll_insert last last.path ih

private theorem named?_of_mem {branches : List Branch} (distinct : DistinctAll branches) {branch : Branch}
    (member : branch ∈ branches) : named? branch.name branches = some branch := by
  induction branches with
  | nil => cases member
  | cons first rest ih =>
    obtain ⟨fresh, _, later⟩ := distinct
    rw [named?_cons]
    rcases List.mem_cons.mp member with rfl | within
    · rw [if_pos rfl]
    · have found := ih later within
      rw [if_neg, found]
      intro same
      rw [same, found] at fresh
      cases fresh

/-- A function gives to the paths through a branch what the branch holds. -/
def FoundIn (units : List String → Option RubyUnit) (branch : Branch) : Prop :=
  units [branch.name] = branch.unit? ∧
    ∀ path, path ≠ [] → units (branch.name :: path) = unitAt path branch.children

private theorem foundIn_unitAt {branches : List Branch} (distinct : DistinctAll branches) {branch : Branch}
    (member : branch ∈ branches) : FoundIn (fun path => unitAt path branches) branch := by
  have found := named?_of_mem distinct member
  constructor
  · simp [unitAt, found]
  · intro path given
    simp [unitAt_cons _ given, found]

mutual

theorem fill_eq_self {units : List String → Option RubyUnit} :
    ∀ {branch : Branch}, Distinct branch → FoundIn units branch → fill units branch = branch
  | .node name unit children, distinct, ⟨here, below⟩ => by
    simp only [name_node, unit?_node, children_node] at here below
    have inner : fillAll (fun path => units (name :: path)) children = children := by
      apply fillAll_eq_self distinct
      intro branch member
      obtain ⟨first, further⟩ := foundIn_unitAt distinct member
      constructor
      · exact (below _ (by simp)).trans first
      · intro path given
        exact (below _ (by simp)).trans (further path given)
    rw [fill, here, inner]

theorem fillAll_eq_self {units : List String → Option RubyUnit} :
    ∀ {branches : List Branch}, DistinctAll branches → (∀ branch ∈ branches, FoundIn units branch) →
      fillAll units branches = branches
  | [], _, _ => rfl
  | branch :: rest, ⟨_, first, later⟩, found => by
    have head := fill_eq_self first (found branch List.mem_cons_self)
    have tail := fillAll_eq_self later fun other member => found other (List.mem_cons_of_mem _ member)
    rw [fillAll, head, tail]

end

/-- A forest is its shape, filled with the units at its paths. -/
theorem fillAll_unitAt (units : List RubyUnit) :
    fillAll (fun path => unitAt path (forest units)) (forest units) = forest units :=
  fillAll_eq_self (distinctAll_forest units) fun _ member =>
    foundIn_unitAt (distinctAll_forest units) member

end LiterateRuby.Branch

namespace LiterateRuby.Render

open Branch (fill fillAll)

/-! ## Rendering -/

/-- What shows of the unit of a branch: its header and its parts, unless it is a mere namespace. -/
def shownUnit? (settings : RenderSettings) (unit : Option RubyUnit) :
    Option (String × Except Unwritable (List (List String))) :=
  (unit.filter (!·.isNamespaceOnly)).map fun unit => (header unit, unitSections settings unit)

theorem shownUnit?_of_real {settings : RenderSettings} {unit : RubyUnit} (real : unit.isNamespaceOnly = false) :
    shownUnit? settings (some unit) = some (header unit, unitSections settings unit) := by
  simp [shownUnit?, real]

theorem shownUnit?_of_mere {settings : RenderSettings} {unit : RubyUnit} (mere : unit.isNamespaceOnly = true) :
    shownUnit? settings (some unit) = none := by
  simp [shownUnit?, mere]

/-- The lines of a branch go by what shows of its unit. -/
theorem branchLines_node (settings : RenderSettings) (name : String) (unit : Option RubyUnit)
    (children : List Branch) :
    branchLines settings (.node name unit children) =
      (branchLinesAll settings children >>= fun lines =>
        match shownUnit? settings unit with
        | none =>
          .ok (["module " ++ name] ++ indentLines settings.indent (joinSections lines) ++ ["end"])
        | some (opening, parts) => parts >>= fun parts =>
          .ok (opening :: indentLines settings.indent (joinSections (parts ++ [joinSections lines])) ++
            ["end"])) := by
  rw [branchLines]
  cases branchLinesAll settings children with
  | error fault => rfl
  | ok lines =>
    cases unit with
    | none => rfl
    | some unit =>
      cases mere : unit.isNamespaceOnly with
      | true =>
        rw [shownUnit?_of_mere mere, Except.ok_bind, Except.ok_bind]
        dsimp only
        rw [if_pos mere]
        rfl
      | false =>
        rw [shownUnit?_of_real mere, Except.ok_bind, Except.ok_bind]
        dsimp only
        rw [if_neg (by simp [mere])]
        rfl

theorem branchLinesAll_eq_mapM (settings : RenderSettings) (branches : List Branch) :
    branchLinesAll settings branches = branches.mapM (branchLines settings) := by
  induction branches with
  | nil => rfl
  | cons branch rest ih => rw [branchLinesAll, List.mapM_cons, ih]

/-- A branch is at least opened and closed. -/
theorem branchLines_ne_nil {settings : RenderSettings} {branch : Branch} {lines : List String}
    (success : branchLines settings branch = .ok lines) : lines ≠ [] := by
  obtain ⟨name, unit, children⟩ := branch
  rw [branchLines_node] at success
  obtain ⟨nested, _, success⟩ := Except.bind_eq_ok_iff.mp success
  split at success
  · cases success
    simp
  · obtain ⟨parts, _, same⟩ := Except.bind_eq_ok_iff.mp success
    cases same
    simp

mutual

theorem branchLines_fill {settings : RenderSettings} {first second : List String → Option RubyUnit}
    (alike : ∀ path, shownUnit? settings (first path) = shownUnit? settings (second path)) :
    ∀ branch, branchLines settings (fill first branch) = branchLines settings (fill second branch)
  | .node name unit children => by
    have inner := branchLinesAll_fillAll (fun path => alike (name :: path)) children
    rw [fill, fill, branchLines_node, branchLines_node, inner, alike]

/-- Units that show alike at each path make forests of one shape that show alike. -/
theorem branchLinesAll_fillAll {settings : RenderSettings}
    {first second : List String → Option RubyUnit}
    (alike : ∀ path, shownUnit? settings (first path) = shownUnit? settings (second path)) :
    ∀ branches, branchLinesAll settings (fillAll first branches) =
      branchLinesAll settings (fillAll second branches)
  | [] => rfl
  | branch :: rest => by
    rw [fillAll, fillAll, branchLinesAll, branchLinesAll, branchLines_fill alike branch,
      branchLinesAll_fillAll alike rest]

end

/-- Documents whose units have their paths in one order, and show alike at each path, are rendered
alike. -/
theorem ruby_eq_of_alike {settings : RenderSettings} {first second : Document}
    (requires : first.requires = second.requires)
    (shape : Branch.shape (Branch.forest first.units) = Branch.shape (Branch.forest second.units))
    (alike : ∀ path, shownUnit? settings (Branch.unitAt path (Branch.forest first.units)) =
      shownUnit? settings (Branch.unitAt path (Branch.forest second.units))) :
    ruby settings first = ruby settings second := by
  have branches : branchLinesAll settings (Branch.forest first.units) =
      branchLinesAll settings (Branch.forest second.units) := by
    have forests := branchLinesAll_fillAll alike (Branch.forest first.units)
    rw [Branch.fillAll_unitAt] at forests
    rw [forests, Branch.fillAll_of_shape shape, Branch.fillAll_unitAt]
  unfold ruby rubyLines
  rw [branches, requires]

end LiterateRuby.Render
