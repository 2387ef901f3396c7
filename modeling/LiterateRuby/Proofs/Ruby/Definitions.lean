import LiterateRuby.Proofs.Forest.Blocks
import LiterateRuby.Proofs.Ruby.Assignment

/-! # Definitions and their uses in code

A body may use what it has defined before. Code keeps the order of the class variables of a unit and that of its
constants, but it writes all class variables before the constants, and all nested units last. So a line stands
after the lines that it uses, unless a class variable uses a constant, a value uses a nested unit, or a name is
assigned again and keeps its first place (`definitions_before_uses`, `uses_before_definitions`).
-/

namespace LiterateRuby

namespace Render

private theorem exists_intersperse_append (separator : α) (first second : List α) :
    ∃ gap, (first ++ second).intersperse separator =
      first.intersperse separator ++ gap ++ second.intersperse separator := by
  induction first with
  | nil => exact ⟨[], rfl⟩
  | cons head rest ih =>
    obtain ⟨gap, later⟩ := ih
    cases rest with
    | nil =>
      cases second with
      | nil => exact ⟨[], rfl⟩
      | cons next more => exact ⟨[separator], by simp⟩
    | cons next more => exact ⟨gap, by simpa using later⟩

/-- Sections that are joined stand as they are by themselves. -/
theorem exists_joinSections_append (first second : List (List String)) :
    ∃ gap, joinSections (first ++ second) = joinSections first ++ gap ++ joinSections second := by
  obtain ⟨gap, split⟩ := exists_intersperse_append [""] (first.filter (!·.isEmpty)) (second.filter (!·.isEmpty))
  exact ⟨gap.flatten, by simp [joinSections, split]⟩

def valueLine (entry : String × Constant) : String := Literate.assignment entry.1 entry.2

def assignmentLines (unit : RubyUnit) : List String := (unit.classVariables ++ unit.constants).map valueLine

private theorem unitSections_eq (settings : RenderSettings) {unit : RubyUnit}
    (written : ∀ entry ∈ unit.classVariables ++ unit.constants, entry.2.literal = .ok (Literate.sourceOf entry.2)) :
    ∃ mixins rest, unitSections settings unit = .ok (mixins :: assignmentLines unit :: rest) := by
  obtain ⟨shared, constants⟩ := List.forall_mem_append.mp written
  rw [unitSections, Literate.assignments_eq shared, Literate.assignments_eq constants, assignmentLines,
    List.map_append]
  exact ⟨_, _, rfl⟩

/-- A unit that is more than a namespace is written as its header, its assignments between its other parts, and
the units nested in it. -/
theorem branchLines_layout {settings : RenderSettings} {unit : RubyUnit} (real : unit.isNamespaceOnly = false)
    (written : ∀ entry ∈ unit.classVariables ++ unit.constants, entry.2.literal = .ok (Literate.sourceOf entry.2))
    {name : String} {children : List Branch} {lines : List String}
    (success : branchLines settings (.node name (some unit) children) = .ok lines) :
    ∃ front back nested, branchLinesAll settings children = .ok nested ∧
      lines = header unit :: indentLines settings.indent
        (front ++ assignmentLines unit ++ back ++ joinSections nested) ++ ["end"] := by
  obtain ⟨mixins, rest, sections⟩ := unitSections_eq settings written
  rw [branchLines] at success
  obtain ⟨nested, below, success⟩ := Except.bind_eq_ok_iff.mp success
  dsimp only at success
  rw [if_neg (by simp [real]), sections] at success
  obtain ⟨before, first⟩ := exists_joinSections_append [mixins]
    ([assignmentLines unit] ++ (rest ++ [joinSections nested]))
  obtain ⟨between, second⟩ := exists_joinSections_append [assignmentLines unit] (rest ++ [joinSections nested])
  obtain ⟨after, third⟩ := exists_joinSections_append rest [joinSections nested]
  rw [second, third, joinSections_singleton, joinSections_singleton, joinSections_singleton] at first
  refine ⟨mixins ++ before, between ++ joinSections rest ++ after, nested, below, ?_⟩
  have whole : joinSections (mixins :: assignmentLines unit :: rest ++ [joinSections nested]) =
      mixins ++ before ++ assignmentLines unit ++ (between ++ joinSections rest ++ after) ++ joinSections nested := by
    simpa [List.append_assoc] using first
  rw [← whole]
  exact (Except.ok.inj success).symm

end Render

namespace Ruby

open Draft (Assignment)
open Render (assignmentLines valueLine)

/-! ## What is assigned last -/

/-- An assignment is the last one to its name. -/
def LastOf (assigned : List Assignment) (made : Assignment) : Prop :=
  ∃ before after, assigned = before ++ made :: after ∧ made.target ∉ after.map Assignment.target

private theorem lastOf_concat {assigned : List Assignment} {last made : Assignment} :
    LastOf (assigned ++ [last]) made ↔ made = last ∨ last.target ≠ made.target ∧ LastOf assigned made := by
  constructor
  · rintro ⟨before, after, split, untouched⟩
    rcases List.eq_nil_or_concat after with rfl | ⟨middle, final, rfl⟩
    · exact .inl (List.append_inj_right' split rfl |> List.singleton_inj.mp).symm
    · rw [List.concat_eq_append, ← List.cons_append, ← List.append_assoc] at split
      obtain ⟨init, tail⟩ := List.append_inj' split rfl
      obtain rfl := List.singleton_inj.mp tail
      rw [List.concat_eq_append, List.map_append, List.mem_append, not_or] at untouched
      exact .inr ⟨fun same => untouched.2 (by simp [same]), before, middle, init, untouched.1⟩
  · rintro (rfl | ⟨other, before, after, rfl, untouched⟩)
    · exact ⟨assigned, [], rfl, by simp⟩
    · exact ⟨before, after ++ [last], by simp, by simpa [Ne.symm other] using untouched⟩

private theorem get?_values_eq_some_iff {assigned : List Assignment} {shared : Bool} {name : String}
    {value : Constant} :
    (Assignment.values shared assigned).get? name = some value ↔ LastOf assigned ⟨shared, name, value⟩ := by
  induction assigned using List.reverseRecOn with
  | nil => simp [Assignment.values, Assignment.pairs, Entries.ofPairs, LastOf]
  | append_singleton assigned last ih =>
    obtain ⟨kind, target, held⟩ := last
    rw [lastOf_concat, ← ih, Assignment.values, Assignment.pairs_append]
    by_cases same : kind = shared
    · have own : Assignment.pairs shared [⟨kind, target, held⟩] = [(target, held)] := by
        simp [Assignment.pairs, same]
      rw [own, Entries.ofPairs_concat, Entries.get?_put]
      by_cases named : target = name
      · simp [Assignment.target, same, named, eq_comm]
      · simp [Assignment.target, named, Ne.symm named, Assignment.values]
    · have apart : Assignment.pairs shared [⟨kind, target, held⟩] = [] := by simp [Assignment.pairs, same]
      rw [apart, List.append_nil]
      simp [Assignment.target, same, Ne.symm same, Assignment.values]

/-- A name holds the value that is assigned to it last. -/
theorem mem_values_iff {assigned : List Assignment} {shared : Bool} {name : String} {value : Constant} :
    (name, value) ∈ Assignment.values shared assigned ↔ LastOf assigned ⟨shared, name, value⟩ :=
  ⟨fun listed => get?_values_eq_some_iff.mp (Entries.get?_of_mem (Entries.nodup_keys_ofPairs _) listed),
    fun last => Entries.mem_of_get? (get?_values_eq_some_iff.mpr last)⟩

/-! ## What comes first -/

section Order

variable {assigned : List Assignment} {definer : Assignment} {shared : Bool} {entry : String × Constant}

private theorem pairs_split (before : List Assignment) (made : Assignment) (after : List Assignment) :
    Assignment.pairs made.shared (before ++ made :: after) =
      Assignment.pairs made.shared before ++ (made.name, made.value) :: Assignment.pairs made.shared after := by
  rw [Assignment.pairs_append]
  simp [Assignment.pairs]

/-- What is assigned before a name is assigned first. -/
def assignedBefore (target : Bool × String) (assigned : List Assignment) : List Assignment :=
  assigned.takeWhile (·.target != target)

private theorem not_mem_assignedBefore (target : Bool × String) (assigned : List Assignment) :
    target ∉ (assignedBefore target assigned).map Assignment.target := by
  rintro early
  obtain ⟨made, listed, rfl⟩ := List.mem_map.mp early
  simpa using List.mem_takeWhile_imp listed

/-- A name that is assigned is assigned a first time. -/
theorem exists_first {target : Bool × String} (member : target ∈ assigned.map Assignment.target) :
    ∃ first after, first.target = target ∧ assigned = assignedBefore target assigned ++ first :: after := by
  induction assigned with
  | nil => cases member
  | cons head rest ih =>
    by_cases same : head.target = target
    · exact ⟨head, rest, same, by simp [assignedBefore, same]⟩
    · obtain ⟨first, after, found, split⟩ := ih (by simpa [Ne.symm same] using member)
      have skipped : assignedBefore target (head :: rest) = head :: assignedBefore target rest := by
        simp [assignedBefore, same]
      exact ⟨first, after, found, by rw [skipped, List.cons_append, ← split]⟩

/-- A name that is assigned has a value. -/
theorem exists_mem_values (defined : definer ∈ assigned) :
    ∃ value, (definer.name, value) ∈ Assignment.values definer.shared assigned := by
  have known := Assignment.mem_keys_values.mpr (List.mem_map_of_mem defined)
  obtain ⟨⟨name, value⟩, listed, rfl⟩ := List.mem_map.mp known
  exact ⟨value, listed⟩

/-- Of two names of one kind the one that is assigned first stands first. -/
theorem sublist_values (listed : entry ∈ Assignment.values shared assigned) (same : definer.shared = shared)
    (defined : definer ∈ assignedBefore (shared, entry.1) assigned) :
    ∃ value, [(definer.name, value), entry].Sublist (Assignment.values shared assigned) := by
  obtain ⟨first, after, found, split⟩ := exists_first (Assignment.mem_keys_values.mp (List.mem_map_of_mem listed))
  obtain ⟨rfl, named⟩ : first.shared = shared ∧ first.name = entry.1 := by
    simpa [Assignment.target] using found
  have names : [definer.name, entry.1].Sublist (Assignment.values first.shared assigned).keys := by
    rw [Assignment.keys_values, Assignment.names, split, pairs_split, List.map_append, List.map_cons, named]
    refine Text.sublist_distinct ?_ ?_
    · have target : definer.target = (first.shared, definer.name) := by rw [← same]; rfl
      refine Assignment.mem_names_iff.mpr ?_
      rw [← target]
      exact List.mem_map_of_mem defined
    · exact fun early => not_mem_assignedBefore _ _ (Assignment.mem_names_iff.mp early)
  obtain ⟨entries, order, named⟩ := List.sublist_map_iff.mp names
  obtain ⟨⟨_, value⟩, ⟨_, other⟩, rfl⟩ := List.length_eq_two.mp (by simpa using congrArg List.length named.symm)
  obtain ⟨rfl, rfl⟩ : definer.name = _ ∧ entry.1 = _ := by simpa using named
  refine ⟨value, ?_⟩
  -- the name has one entry
  have once := Entries.nodup_keys_ofPairs (Assignment.pairs first.shared assigned)
  have held := Entries.get?_of_mem once listed
  have again := Entries.get?_of_mem once (order.subset (by simp : (entry.1, other) ∈ _))
  rw [held] at again
  rwa [← Option.some.inj again] at order

private theorem values_eq {unit : RubyUnit} (held : Assigned assigned unit) (shared : Bool) :
    unit.values shared = Assignment.values shared assigned := by
  cases shared with
  | false => exact held.constants
  | true => exact held.classVariables

/-- The line of a name stands after the lines of the names that were assigned before it was assigned first, but
that of a class variable stands before those of constants. -/
theorem sublist_assignmentLines {unit : RubyUnit} (held : Assigned assigned unit)
    (listed : entry ∈ unit.values shared) (defined : definer ∈ assignedBefore (shared, entry.1) assigned) :
    ∃ value, (definer.name, value) ∈ unit.values definer.shared ∧
      (if shared && !definer.shared then [valueLine entry, valueLine (definer.name, value)]
        else [valueLine (definer.name, value), valueLine entry]).Sublist (assignmentLines unit) := by
  have lines : assignmentLines unit =
      (unit.values true).map valueLine ++ (unit.values false).map valueLine := List.map_append
  rw [lines]
  by_cases same : definer.shared = shared
  · obtain ⟨value, order⟩ := sublist_values (values_eq held shared ▸ listed) same defined
    rw [← values_eq held] at order
    refine ⟨value, same ▸ order.subset List.mem_cons_self, ?_⟩
    rw [same, Bool.and_not_self, if_neg (by decide)]
    refine (order.map valueLine).trans ?_
    cases shared with
    | true => exact List.sublist_append_left _ _
    | false => exact List.sublist_append_right _ _
  · obtain ⟨value, other⟩ := exists_mem_values ((List.takeWhile_sublist _).subset defined)
    rw [← values_eq held] at other
    refine ⟨value, other, ?_⟩
    cases shared with
    | true =>
      have constant : definer.shared = false := by simpa using same
      rw [constant] at other ⊢
      rw [if_pos (by decide)]
      exact (List.singleton_sublist.mpr (List.mem_map_of_mem listed)).append
        (List.singleton_sublist.mpr (List.mem_map_of_mem other))
    | false =>
      have classWide : definer.shared = true := by simpa using same
      rw [classWide] at other ⊢
      rw [if_neg (by decide)]
      exact (List.singleton_sublist.mpr (List.mem_map_of_mem other)).append
        (List.singleton_sublist.mpr (List.mem_map_of_mem listed))

end Order

/-! ## What mentions what -/

/-- Whether a character belongs to an identifier, or to the signs before one. -/
def isIdentifierChar (c : Char) : Bool := Text.isWord c || c == '@'

/-- The identifiers in a text: its longest runs of such characters. -/
def identifiers (text : String) : List String :=
  ((text.toList.splitOnP fun c => !isIdentifierChar c).filter (!·.isEmpty)).map String.ofList

/-- The identifiers in a value that is kept as source. -/
def mentions : Constant → List String
  | .raw source => identifiers source
  | _ => []

/-- Code of a document that was read from source code. Each unit is written with its assignments before the units
nested in it. Each name that is assigned in the unit has one line, with the value that is assigned to it last. The
line of a name stands after the line of each constant and class variable that its value mentions and that was
assigned before the name was assigned first, unless it is the line of a class variable that mentions a constant:
then it stands before the line of that constant. -/
theorem definitions_before_uses {scene : Scene} {filename : Option String} {document : Document}
    (success : (walk scene (Draft.empty filename)).result = .ok document) :
    ∃ events paths, eventsOf scene scene.root.namedChildren [] = .ok (events, paths) ∧
      ∀ settings, (∃ code, Render.ruby settings document = .ok code) ∧
      ∀ unit ∈ document.units,
        (unit.isNamespaceOnly = false → ∀ name children lines,
          Render.branchLines settings (.node name (some unit) children) = .ok lines →
          ∃ front back nested, Render.branchLinesAll settings children = .ok nested ∧
            lines = Render.header unit :: Render.indentLines settings.indent
              (front ++ assignmentLines unit ++ back ++ Render.joinSections nested) ++ ["end"]) ∧
        (∀ shared, (unit.values shared).keys.Nodup ∧ ∀ name value, (name, value) ∈ unit.values shared ↔
          LastOf (assignedIn scene unit.qualifiedName events) ⟨shared, name, value⟩) ∧
        ∀ shared, ∀ entry ∈ unit.values shared,
          ∀ definer ∈ assignedBefore (shared, entry.1) (assignedIn scene unit.qualifiedName events),
            definer.name ∈ mentions entry.2 →
            ∃ value, (definer.name, value) ∈ unit.values definer.shared ∧
              (if shared && !definer.shared then [valueLine entry, valueLine (definer.name, value)]
                else [valueLine (definer.name, value), valueLine entry]).Sublist (assignmentLines unit) := by
  obtain ⟨events, paths, told, apart, assigned⟩ := assigned_of_walk success
  refine ⟨events, paths, told, fun settings => ⟨?_, fun unit member => ⟨?_, fun shared => ?_, ?_⟩⟩⟩
  · refine Branch.ruby_succeeds settings apart fun unit member => ?_
    obtain ⟨mixins, rest, sections⟩ := Render.unitSections_eq settings (assigned unit member).written
    exact ⟨_, sections⟩
  · intro real name children lines written
    exact Render.branchLines_layout real (assigned unit member).written written
  · rw [values_eq (assigned unit member)]
    exact ⟨Entries.nodup_keys_ofPairs _, fun name value => mem_values_iff⟩
  · intro shared entry listed definer defined _
    exact sublist_assignmentLines (assigned unit member) listed defined

/-- A class that holds a value, uses what it has defined and assigns a name again. -/
def reorderedClass : Tree :=
  .node { kind := "class", start := 0, stop := 69 }
    [.node { kind := "constant", start := 6, stop := 7, field := some "name" } [],
      .node { kind := "body_statement", start := 10, stop := 65, field := some "body" }
        [.node { kind := "assignment", start := 10, stop := 15 }
          [.node { kind := "constant", start := 10, stop := 11, field := some "left" } [],
            .node { kind := "integer", start := 14, stop := 15, field := some "right" } []],
          .node { kind := "assignment", start := 18, stop := 25 }
            [.node { kind := "class_variable", start := 18, stop := 21, field := some "left" } [],
              .node { kind := "constant", start := 24, stop := 25, field := some "right" } []],
          .node { kind := "class", start := 28, stop := 41 }
            [.node { kind := "constant", start := 34, stop := 35, field := some "name" } []],
          .node { kind := "assignment", start := 44, stop := 49 }
            [.node { kind := "constant", start := 44, stop := 45, field := some "left" } [],
              .node { kind := "constant", start := 48, stop := 49, field := some "right" } []],
          .node { kind := "assignment", start := 52, stop := 57 }
            [.node { kind := "constant", start := 52, stop := 53, field := some "left" } [],
              .node { kind := "constant", start := 56, stop := 57, field := some "right" } []],
          .node { kind := "assignment", start := 60, stop := 65 }
            [.node { kind := "constant", start := 60, stop := 61, field := some "left" } [],
              .node { kind := "constant", start := 64, stop := 65, field := some "right" } []]]]

def reordered : Scene where
  source := .ofText "class A\n  B = 1\n  @@c = B\n  class D\n  end\n  E = D\n  F = E\n  B = F\nend\n"
  root := .node { kind := "program", start := 0, stop := 70 } [reorderedClass]

/-- The line of `F` stands after that of `E`, which it mentions. -/
theorem definitions_before_uses_of_chain :
    ∃ document, (walk reordered (Draft.empty none)).result = .ok document ∧
      ∃ unit ∈ document.units, unit.qualifiedName = "A" ∧
        ∃ value, [valueLine ("E", value), "F = E"].Sublist (assignmentLines unit) := by
  have reads : (walk reordered (Draft.empty none)).result.isOk = true := by decide +kernel
  have held : (walk reordered (Draft.empty none)).result.toOption.map
      (·.units.map fun unit => (unit.qualifiedName,
        unit.constants.map fun entry => (entry.1, mentions entry.2, valueLine entry))) = some
      [("A", [("B", ["F"], "B = F"), ("E", ["D"], "E = D"), ("F", ["E"], "F = E")]), ("A::D", [])] := by
    decide +kernel
  have early : (eventsOf reordered reordered.root.namedChildren []).toOption.map
      (fun told => (assignedBefore (false, "F") (assignedIn reordered "A" told.1)).map Assignment.target) =
        some [(false, "B"), (true, "@@c"), (false, "E")] := by decide +kernel
  obtain ⟨document, success⟩ := Except.exists_of_isOk reads
  rw [success] at held
  obtain ⟨unit, others, units, first, -⟩ := List.map_eq_cons_iff.mp (Option.some.inj held)
  obtain ⟨named, constants⟩ := Prod.mk.inj first
  have listed : ("F", ["E"], "F = E") ∈
      unit.constants.map fun entry => (entry.1, mentions entry.2, valueLine entry) := by
    rw [constants]
    decide
  obtain ⟨entry, among, shown⟩ := List.mem_map.mp listed
  obtain ⟨name, uses, line⟩ : entry.1 = "F" ∧ mentions entry.2 = ["E"] ∧ valueLine entry = "F = E" := by
    simpa using shown
  obtain ⟨events, paths, told, holds⟩ := definitions_before_uses success
  rw [told] at early
  have made : (false, "E") ∈
      (assignedBefore (false, "F") (assignedIn reordered "A" events)).map Assignment.target := by
    have all : (assignedBefore (false, "F") (assignedIn reordered "A" events)).map Assignment.target =
        [(false, "B"), (true, "@@c"), (false, "E")] := Option.some.inj early
    rw [all]
    decide
  obtain ⟨definer, before, target⟩ := List.mem_map.mp made
  obtain ⟨kind, defined⟩ := Prod.mk.inj target
  have member : unit ∈ document.units := by rw [units]; exact List.mem_cons_self
  obtain ⟨value, -, order⟩ := ((holds .default).2 unit member).2.2 false entry among definer
    (by rw [name, named]; exact before) (by rw [uses, defined]; decide)
  rw [defined, line, kind, if_neg (by decide)] at order
  exact ⟨document, success, unit, member, named, value, order⟩

/-- The name that a statement of a unit body defines. -/
def definedBy? (scene : Scene) (statement : Tree) : Option String :=
  if isUnit statement then (nameOf scene statement).toOption else (assignmentOf? scene statement).map (·.name)

/-- Whether statements of a unit body mention only names that are known or that they have defined before. -/
def definesFirst (scene : Scene) : List String → List Tree → Bool
  | _, [] => true
  | known, statement :: rest =>
    ((assignmentOf? scene statement).all fun made => (mentions made.value).all (known.contains ·)) &&
      definesFirst scene ((definedBy? scene statement).toList ++ known) rest

/-- Code that uses a constant before it defines it: a class variable uses one, a constant uses a nested unit, and
a constant that is assigned again uses one that was assigned between. -/
theorem uses_before_definitions :
    definesFirst reordered [] (statementsOf reorderedClass) = true ∧
    ∃ document lines, (walk reordered (Draft.empty none)).result = .ok document ∧
      Render.rubyLines .default document = .ok lines ∧
      lines = ["class A", "  @@c = B", "  B = F", "  E = D", "  F = E", "", "  class D", "  end", "end"] ∧
      ¬["  B = F", "  @@c = B"].Sublist lines ∧ ¬["  class D", "  E = D"].Sublist lines ∧
      ¬["  F = E", "  B = F"].Sublist lines := by
  have reads : (walk reordered (Draft.empty none)).result.isOk = true := by decide +kernel
  obtain ⟨document, success⟩ := Except.exists_of_isOk reads
  have written : (walk reordered (Draft.empty none)).result.toOption.map (Render.rubyLines .default) = some (.ok
      ["class A", "  @@c = B", "  B = F", "  E = D", "  F = E", "", "  class D", "  end", "end"]) := by
    decide +kernel
  rw [success] at written
  exact ⟨by decide +kernel, document, _, success, Option.some.inj written, rfl, by decide, by decide, by decide⟩

end Ruby

end LiterateRuby
