import LiterateRuby.Proofs.Forest
import Mathlib.Data.List.Infix

/-! # The nodes of a forest of namespaces

A branch is met once on the way through a forest, at the path that leads to it (`mem_entriesAll`,
`nodup_entriesAll`). Adding a path makes nodes of its prefixes and of nothing else (`hasPath_addPath_iff`),
and a name that is new at a place comes last there (`childNames_addPath`). So the nodes, their units and
their order are told by the list of units.
-/

namespace LiterateRuby.Branch

/-! ## Where a path leads -/

private theorem named?_fillAll (name : String) (units : List String → Option RubyUnit) (branches : List Branch) :
    named? name (fillAll units branches) = (named? name branches).map (fill units) := by
  induction branches with
  | nil => rfl
  | cons branch rest ih =>
    rw [fillAll, named?_cons, named?_cons, name_fill, ih]
    split <;> rfl

private theorem children_fill (branch : Branch) :
    (fill (fun _ => none) branch).children = shape branch.children := by
  cases branch
  rfl

theorem hasPath_shape {path : List String} {branches : List Branch} :
    HasPath path (shape branches) ↔ HasPath path branches := by
  induction path generalizing branches with
  | nil => exact Iff.rfl
  | cons segment rest ih =>
    rw [HasPath, HasPath, shape, named?_fillAll]
    cases named? segment branches with
    | none => simp
    | some branch => simp [children_fill, ih]

/-- The paths that lead through a forest are the prefixes of the paths of its units. -/
theorem hasPath_forest_iff {units : List RubyUnit} {path : List String} (given : path ≠ []) :
    HasPath path (forest units) ↔ ∃ unit ∈ units, path <+: unit.path := by
  rw [← hasPath_shape, shape_forest]
  induction units using List.reverseRecOn with
  | nil =>
    obtain ⟨segment, rest, rfl⟩ := List.exists_cons_of_ne_nil given
    simp [addPaths, HasPath, named?]
  | append_singleton units last ih =>
    have added : addPaths ((units ++ [last]).map (·.path)) [] =
        addPath last.path (addPaths (units.map (·.path)) []) := by
      rw [List.map_append, addPaths_append]
      rfl
    rw [added, hasPath_addPath_iff, ih]
    simp [or_and_right, exists_or]

/-! ## Each branch once -/

/-- A path leads to a branch, which holds a unit or none. -/
structure Met (path : List String) (held : Option RubyUnit) (branches : List Branch) : Prop where
  given : path ≠ []
  leads : HasPath path branches
  holds : held = unitAt path branches

private theorem met_nil {path : List String} {held : Option RubyUnit} : ¬Met path held [] := by
  rintro ⟨given, leads, _⟩
  obtain ⟨segment, rest, rfl⟩ := List.exists_cons_of_ne_nil given
  obtain ⟨branch, found, _⟩ := leads
  cases found

/-- A path leads to a branch, into it, or to the branches beside it. -/
theorem met_cons {branch : Branch} {rest : List Branch} (fresh : named? branch.name rest = none)
    {path : List String} {held : Option RubyUnit} :
    Met path held (branch :: rest) ↔
      (path = [branch.name] ∧ held = branch.unit?) ∨
        (∃ below, path = branch.name :: below ∧ Met below held branch.children) ∨ Met path held rest := by
  cases path with
  | nil =>
    refine ⟨fun met => absurd rfl met.given, ?_⟩
    rintro (⟨⟨⟩, _⟩ | ⟨_, ⟨⟩, _⟩ | met)
    exact absurd rfl met.given
  | cons segment more =>
    by_cases same : branch.name = segment
    · subst same
      have found : named? branch.name (branch :: rest) = some branch := by rw [named?_cons, if_pos rfl]
      have beside : ¬Met (branch.name :: more) held rest := by
        rintro ⟨_, ⟨other, again, _⟩, _⟩
        rw [fresh] at again
        cases again
      cases more with
      | nil =>
        constructor
        · rintro ⟨_, _, holds⟩
          exact .inl ⟨rfl, by rw [holds, unitAt, found]; rfl⟩
        · rintro (⟨_, holds⟩ | ⟨below, whole, met⟩ | met)
          · exact ⟨by simp, ⟨branch, found, trivial⟩, by rw [holds, unitAt, found]; rfl⟩
          · cases whole
            exact absurd rfl met.given
          · exact absurd met beside
      | cons next following =>
        constructor
        · rintro ⟨_, ⟨other, again, leads⟩, holds⟩
          cases found.symm.trans again
          refine .inr (.inl ⟨_, rfl, by simp, leads, ?_⟩)
          rw [holds, unitAt_cons _ (by simp), found]
          rfl
        · rintro (⟨whole, _⟩ | ⟨below, whole, met⟩ | met)
          · cases whole
          · cases whole
            refine ⟨by simp, ⟨branch, found, met.leads⟩, ?_⟩
            rw [unitAt_cons _ (by simp), found]
            exact met.holds
          · exact absurd met beside
    · have past : named? segment (branch :: rest) = named? segment rest := by rw [named?_cons, if_neg same]
      have leads : HasPath (segment :: more) (branch :: rest) ↔ HasPath (segment :: more) rest := by
        rw [HasPath, HasPath, past]
      have holds : unitAt (segment :: more) (branch :: rest) = unitAt (segment :: more) rest := by
        cases more with
        | nil => rw [unitAt, unitAt, past]
        | cons next following => rw [unitAt_cons _ (by simp), unitAt_cons _ (by simp), past]
      constructor
      · exact fun met => .inr (.inr ⟨met.given, leads.mp met.leads, holds ▸ met.holds⟩)
      · rintro (⟨whole, _⟩ | ⟨below, whole, _⟩ | met)
        · exact absurd (List.cons.inj whole).1.symm same
        · exact absurd (List.cons.inj whole).1.symm same
        · exact ⟨met.given, leads.mpr met.leads, holds ▸ met.holds⟩

mutual

/-- What is listed of a branch is the branch and what paths lead to in it. -/
theorem mem_entries {above path : List String} {held : Option RubyUnit} :
    ∀ {branch : Branch}, Distinct branch →
      ((path, held) ∈ entries above branch ↔
        (path = above ++ [branch.name] ∧ held = branch.unit?) ∨
          ∃ below, path = above ++ branch.name :: below ∧ Met below held branch.children)
  | .node name unit children, distinct => by
    rw [Distinct] at distinct
    rw [entries, List.mem_cons, mem_entriesAll distinct]
    simp

/-- What is listed of a forest is what paths lead to. -/
theorem mem_entriesAll {above path : List String} {held : Option RubyUnit} :
    ∀ {branches : List Branch}, DistinctAll branches →
      ((path, held) ∈ entriesAll above branches ↔ ∃ below, path = above ++ below ∧ Met below held branches)
  | [], _ => by
    rw [entriesAll]
    exact ⟨fun member => absurd member List.not_mem_nil, fun ⟨_, _, met⟩ => absurd met met_nil⟩
  | branch :: rest, ⟨fresh, first, later⟩ => by
    rw [entriesAll, List.mem_append, mem_entries first, mem_entriesAll later]
    constructor
    · rintro ((⟨rfl, holds⟩ | ⟨below, rfl, met⟩) | ⟨below, rfl, met⟩)
      · exact ⟨[branch.name], rfl, (met_cons fresh).mpr (.inl ⟨rfl, holds⟩)⟩
      · exact ⟨branch.name :: below, rfl, (met_cons fresh).mpr (.inr (.inl ⟨below, rfl, met⟩))⟩
      · exact ⟨below, rfl, (met_cons fresh).mpr (.inr (.inr met))⟩
    · rintro ⟨below, rfl, met⟩
      obtain ⟨rfl, holds⟩ | ⟨inner, rfl, inside⟩ | beside := (met_cons fresh).mp met
      · exact .inl (.inl ⟨rfl, holds⟩)
      · exact .inl (.inr ⟨inner, rfl, inside⟩)
      · exact .inr ⟨below, rfl, beside⟩

end

mutual

theorem nodup_entries {above : List String} :
    ∀ {branch : Branch}, Distinct branch → ((entries above branch).map (·.1)).Nodup
  | .node name unit children, distinct => by
    rw [Distinct] at distinct
    rw [entries, List.map_cons, List.nodup_cons]
    refine ⟨fun member => ?_, nodup_entriesAll distinct⟩
    obtain ⟨⟨path, held⟩, listed, same⟩ := List.mem_map.mp member
    obtain ⟨below, rfl, met⟩ := (mem_entriesAll distinct).mp listed
    exact met.given (List.append_right_eq_self.mp same)

/-- No path is listed twice. -/
theorem nodup_entriesAll {above : List String} :
    ∀ {branches : List Branch}, DistinctAll branches → ((entriesAll above branches).map (·.1)).Nodup
  | [], _ => List.nodup_nil
  | branch :: rest, ⟨fresh, first, later⟩ => by
    rw [entriesAll, List.map_append, List.nodup_append]
    refine ⟨nodup_entries first, nodup_entriesAll later, ?_⟩
    rintro path here other beside rfl
    obtain ⟨⟨_, held⟩, listed, rfl⟩ := List.mem_map.mp here
    obtain ⟨⟨_, kept⟩, again, same⟩ := List.mem_map.mp beside
    obtain ⟨below, whole, met⟩ := (mem_entriesAll later).mp again
    -- the first segment after `above` is the name of one branch only
    obtain ⟨more, starts⟩ : ∃ more, below = branch.name :: more := by
      dsimp only at same
      rcases (mem_entries first).mp listed with ⟨path, _⟩ | ⟨inner, path, _⟩
      · exact ⟨[], List.append_cancel_left (whole.symm.trans (same.trans path))⟩
      · exact ⟨inner, List.append_cancel_left (whole.symm.trans (same.trans path))⟩
    rw [starts] at met
    obtain ⟨found, named, _⟩ := met.leads
    rw [fresh] at named
    cases named

end

/-! ## Siblings -/

/-- The names of the branches right below a path, in order. -/
def childNames : List String → List Branch → List String
  | [], branches => branches.map name
  | segment :: rest, branches =>
    match named? segment branches with
    | some branch => childNames rest branch.children
    | none => []

/-- The segment that comes right after a path in one that it starts. -/
def nextSegment? : List String → List String → Option String
  | [], path => path.head?
  | _ :: _, [] => none
  | segment :: rest, first :: path => if segment = first then nextSegment? rest path else none

@[simp] theorem childNames_empty (above : List String) : childNames above [] = [] := by
  cases above <;> rfl

private theorem map_name_place {name : String} {grow : Branch → Branch}
    (keeps : ∀ branch, (grow branch).name = branch.name) (branches : List Branch) :
    (place name grow branches).map Branch.name =
      if (branches.map Branch.name).contains name then branches.map Branch.name
      else branches.map Branch.name ++ [name] := by
  induction branches with
  | nil => simp [place, keeps]
  | cons branch rest ih =>
    rw [place]
    by_cases here : branch.name = name
    · rw [if_pos here]
      simp [keeps, here]
    · rw [if_neg here, List.map_cons, ih]
      by_cases later : (rest.map Branch.name).contains name = true
      · rw [if_pos later]
        have seen : (branch.name :: rest.map Branch.name).contains name = true := by
          rw [List.contains_cons, later, Bool.or_true]
        rw [List.map_cons, if_pos seen]
      · rw [if_neg later]
        have fresh : ¬(branch.name :: rest.map Branch.name).contains name = true := by
          rw [List.contains_cons, Bool.eq_false_iff.mpr later, Bool.or_false]
          simpa using Ne.symm here
        rw [List.map_cons, if_neg fresh, List.cons_append]

/-- Where a path that is added goes on, it gives the next name, which comes last if it is new. -/
theorem childNames_addPath (above path : List String) (branches : List Branch) :
    childNames above (addPath path branches) =
      match nextSegment? above path with
      | some segment =>
        if (childNames above branches).contains segment then childNames above branches
        else childNames above branches ++ [segment]
      | none => childNames above branches := by
  induction above generalizing path branches with
  | nil =>
    cases path with
    | nil => rfl
    | cons segment rest => exact map_name_place (by intro branch; rfl) branches
  | cons asked below ih =>
    cases path with
    | nil => rfl
    | cons segment rest =>
      rw [addPath, nextSegment?, childNames, named?_place (by intro branch; rfl)]
      by_cases same : asked = segment
      · subst same
        have held : childNames (asked :: below) branches =
            childNames below (namedOrNew asked branches).children := by
          rw [childNames, namedOrNew]
          cases named? asked branches <;> simp
        rw [if_pos rfl, if_pos rfl, held]
        exact ih rest _
      · rw [if_neg same, if_neg same]
        rfl

private theorem childNames_shape (above : List String) (branches : List Branch) :
    childNames above (shape branches) = childNames above branches := by
  induction above generalizing branches with
  | nil =>
    induction branches with
    | nil => rfl
    | cons branch rest ih =>
      simp only [childNames, shape, fillAll, List.map_cons, name_fill] at ih ⊢
      rw [ih]
  | cons segment rest ih =>
    rw [childNames, childNames, shape, named?_fillAll]
    cases named? segment branches with
    | none => rfl
    | some branch => simp only [Option.map_some, children_fill, ih]

/-- Siblings stand in the order in which a path through them first occurs. -/
theorem childNames_forest (above : List String) (units : List RubyUnit) :
    childNames above (forest units) =
      Text.distinct (units.filterMap fun unit => nextSegment? above unit.path) := by
  induction units using List.reverseRecOn with
  | nil => simp [forest]
  | append_singleton units last ih =>
    rw [← childNames_shape, forest_append_singleton, shape_insert, childNames_addPath, childNames_shape, ih,
      List.filterMap_append]
    cases next : nextSegment? above last.path with
    | none => simp [next]
    | some segment =>
      simp only [List.filterMap_cons, next, List.filterMap_nil]
      rw [Text.distinct_concat]

end LiterateRuby.Branch
