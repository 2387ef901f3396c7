import LiterateRuby.Proofs.Forest.Blocks
import LiterateRuby.Proofs.Inhabited
import LiterateRuby.Proofs.Literate.RoundTrip
import LiterateRuby.Proofs.Ruby.Hollow

/-! # Scoped names in the notation

A walk keeps a scoped name whole, as one part of a path, and makes no module for what is before the colons. A
heading is only the qualified name, so the text does not say where a path was split (`write_separated`). A
reader splits it at all colons. So what comes back of units without contents is the document with its paths
split and its mere namespaces left out (`ruby_of_walk`). It renders other code if a part of a path was scoped, or
if a mere namespace came earlier than any unit inside it would lead to it (`blocks_changed_of_scoped`).
-/

namespace LiterateRuby

/-- The unit at the path that its qualified name spells. -/
def RubyUnit.separated (unit : RubyUnit) : RubyUnit :=
  let path := Text.scopeSegments unit.qualifiedName
  { unit with scope := path.dropLast, name := path.getLast?.getD "" }

/-- The units that are more than namespaces, each at the path that its qualified name spells. -/
def Document.separated (document : Document) : Document :=
  { document with units := (document.units.filter (!·.isNamespaceOnly)).map RubyUnit.separated }

private theorem RubyUnit.path_separated (unit : RubyUnit) :
    unit.separated.path = Text.scopeSegments unit.qualifiedName := by
  have given := Literate.scopeSegments_ne_nil unit.qualifiedName
  rw [path, separated, List.getLast?_eq_some_getLast given, Option.getD_some]
  exact List.dropLast_concat_getLast given

/-- A name is not changed by where it is split. -/
@[simp] theorem RubyUnit.qualifiedName_separated (unit : RubyUnit) :
    unit.separated.qualifiedName = unit.qualifiedName := by
  rw [qualifiedName, path_separated, Literate.joinScope_scopeSegments]

namespace Literate

private theorem unitHeading_separated (unit : RubyUnit) : unitHeading unit.separated = unitHeading unit := by
  have same : Text.joinScope unit.separated.path = Text.joinScope unit.path := unit.qualifiedName_separated
  unfold unitHeading
  rw [same]
  rfl

private theorem unitLines_separated (settings : RenderSettings) (unit : RubyUnit) :
    unitLines settings unit.separated = unitLines settings unit := by
  unfold unitLines
  rw [unitHeading_separated]
  rfl

private theorem droppedParts_separated (unit : RubyUnit) : droppedParts unit.separated = droppedParts unit := by
  unfold droppedParts
  rw [RubyUnit.qualifiedName_separated]
  rfl

private theorem real_of_separated (document : Document) :
    ∀ unit ∈ document.separated.units, unit.isNamespaceOnly = false := by
  intro unit member
  obtain ⟨held, listed, rfl⟩ := List.mem_map.mp member
  have real : held.isNamespaceOnly = false := by simpa using (List.mem_filter.mp listed).2
  exact real

private theorem writtenUnits_separated (document : Document) :
    writtenUnits document.separated = (writtenUnits document).map RubyUnit.separated :=
  List.filter_eq_self.mpr fun unit member => by simp [real_of_separated document unit member]

/-- The text of a document does not tell where its paths are split, and leaves mere namespaces out. -/
theorem write_separated [DataFormat] (settings : RenderSettings) (document : Document) :
    write settings document.separated = write settings document := by
  have front (first : Option RubyUnit) :
      frontMatter document.separated (first.map RubyUnit.separated) = frontMatter document first := by
    cases first <;> rfl
  have lines (units : List RubyUnit) :
      (units.map RubyUnit.separated).mapM (unitLines settings) = units.mapM (unitLines settings) := by
    have := Outcome.lawfulMonad Render.Unwritable
    rw [List.mapM_map]
    exact congrArg (fun each => units.mapM each) (funext (unitLines_separated settings))
  have warnings (units : List RubyUnit) :
      (units.map RubyUnit.separated).flatMap droppedParts = units.flatMap droppedParts := by
    rw [List.flatMap_map]
    exact congrArg (fun each => units.flatMap each) (funext droppedParts_separated)
  unfold write
  rw [← writtenUnits, ← writtenUnits, writtenUnits_separated]
  dsimp only
  rw [List.isEmpty_map, List.head?_map, front, lines, ← List.map_drop, warnings]
  rfl

/-! ## Where the paths are split -/

/-- A path without colons in it is split as the qualified name is. -/
theorem path_separated_of_unscoped {unit : RubyUnit} (unscoped : ∀ segment ∈ unit.path, ':' ∉ segment.toList) :
    unit.separated.path = unit.path := by
  rw [RubyUnit.path_separated, Text.scopeSegments, RubyUnit.qualifiedName, toList_joinScope,
    Text.splitScope_intercalate (by simpa using Branch.path_ne_nil unit) (by simpa using unscoped)]
  simp [Function.comp_def]

/-- The branches are the same after all paths are split and mere namespaces are left out, in the same order,
exactly if there was nothing to split and mere namespaces can be left out. -/
theorem shape_separated_iff {document : Document}
    (bare : ∀ unit ∈ writtenUnits document, ∀ segment ∈ unit.separated.path, BareName segment) :
    Branch.shape (Branch.forest document.separated.units) = Branch.shape (Branch.forest document.units) ↔
      (∀ unit ∈ writtenUnits document, ∀ segment ∈ unit.path, ':' ∉ segment.toList) ∧ Dispensable document := by
  have unsplit (unscoped : ∀ unit ∈ writtenUnits document, ∀ segment ∈ unit.path, ':' ∉ segment.toList) :
      Branch.shape (Branch.forest document.separated.units) =
        Branch.shape (Branch.forest (writtenUnits document)) := by
    have paths : document.separated.units.map (·.path) = (writtenUnits document).map (·.path) := by
      rw [Document.separated, ← writtenUnits, List.map_map]
      exact List.map_congr_left fun unit member => path_separated_of_unscoped (unscoped unit member)
    rw [Branch.shape_forest, Branch.shape_forest, paths]
  constructor
  · intro same
    have unscoped : ∀ unit ∈ writtenUnits document, ∀ segment ∈ unit.path, ':' ∉ segment.toList := by
      intro unit member segment within
      have leads : Branch.HasPath unit.path (Branch.forest document.units) :=
        (Branch.hasPath_forest_iff (Branch.path_ne_nil unit)).mpr
          ⟨unit, (List.mem_filter.mp member).1, List.prefix_rfl⟩
      rw [← Branch.hasPath_shape, ← same, Branch.hasPath_shape,
        Branch.hasPath_forest_iff (Branch.path_ne_nil unit)] at leads
      obtain ⟨other, listed, starts⟩ := leads
      obtain ⟨held, inside, rfl⟩ := List.mem_map.mp listed
      exact (bare held inside segment (starts.subset within)).unscoped
    exact ⟨unscoped, (unsplit unscoped).symm.trans same⟩
  · rintro ⟨unscoped, dispensable⟩
    exact (unsplit unscoped).trans dispensable

/-! ## Units without contents -/

private theorem hollow_separated {unit : RubyUnit} (hollow : unit.Hollow) : unit.separated.Hollow where
  named := by
    rw [RubyUnit.qualifiedName_separated]
    exact hollow.named
  contents := hollow.contents
  superclass := hollow.superclass

private theorem bare_separated {unit : RubyUnit} (hollow : unit.Hollow) :
    ∀ segment ∈ unit.separated.path, BareName segment := by
  rw [RubyUnit.path_separated]
  exact hollow.named

section

variable {unit : RubyUnit} (hollow : unit.Hollow)
include hollow

private theorem contents_of_hollow : unit.methods = [] ∧ unit.constants = [] ∧ unit.classVariables = [] ∧
    (∀ accessor, unit.declared accessor = []) ∧ unit.attributes = [] ∧ unit.included = [] ∧
    unit.extended = [] ∧ unit.aliases = [] ∧ unit.aliasMethods = [] := by
  have contents := hollow.contents
  simp only [RubyUnit.hasOwnContent, RubyUnit.hasAttributes, RubyUnit.hasDeclared, RubyUnit.hasMixins,
    RubyUnit.hasAliases, Bool.or_eq_false_iff, Bool.not_eq_false', List.isEmpty_iff, List.any_eq_false,
    Bool.not_eq_true', Bool.not_eq_false] at contents
  obtain ⟨⟨⟨⟨⟨methods, constants⟩, values⟩, declared, attributes⟩, included, extended⟩, aliases, calls⟩ := contents
  have all (accessor : Accessor) : accessor ∈ Accessor.all := by cases accessor <;> decide
  exact ⟨methods, constants, values, fun accessor => declared accessor (all accessor), attributes, included,
    extended, aliases, calls⟩

private theorem undescribed_of_hollow : Undescribed unit := by
  obtain ⟨_, _, _, _, _, included, extended, aliases, calls⟩ := contents_of_hollow hollow
  exact ⟨hollow.superclass, included, extended, aliases, calls⟩

private theorem mixins_of_hollow : PlainMixins unit := by
  obtain ⟨_, _, _, _, _, included, extended, aliases, calls⟩ := contents_of_hollow hollow
  constructor <;> simp [included, extended, aliases, calls, Entries.keys]

private theorem fair_of_hollow (bare : ∀ segment ∈ unit.path, BareName segment) : FairUnit unit := by
  obtain ⟨methods, constants, values, declared, attributes, _⟩ := contents_of_hollow hollow
  refine ⟨bare, ?_, by simp [methods]⟩
  constructor <;> simp [constants, values, declared, attributes, Entries.keys]

/-- Nothing stands against writing a unit without contents as code. -/
theorem unitSections_of_hollow (settings : RenderSettings) :
    ∃ parts, Render.unitSections settings unit = .ok parts := by
  obtain ⟨_, constants, values, _⟩ := contents_of_hollow hollow
  rw [Render.unitSections, constants, values]
  exact ⟨_, rfl⟩

end

private theorem frontMatter_of_hollow {document : Document} (requires : document.requires = [])
    {first : Option RubyUnit}
    (hollow : ∀ unit ∈ first, unit.Hollow) : frontMatter document first = [] := by
  cases first with
  | none => simp [frontMatter, requires]
  | some unit =>
    obtain ⟨superclass, included, extended, aliases, calls⟩ := undescribed_of_hollow (hollow unit rfl)
    simp [frontMatter, requires, superclass, included, extended, aliases, calls]

/-- Where all units are more than namespaces, nothing is left out. -/
theorem dispensable_of_real {document : Document}
    (real : ∀ unit ∈ document.units, unit.isNamespaceOnly = false) : Dispensable document := by
  have all : writtenUnits document = document.units :=
    List.filter_eq_self.mpr fun unit member => by simp [real unit member]
  rw [Dispensable, all]

/-- A document of units without contents, some of which is more than a namespace. -/
structure HollowDocument (document : Document) : Prop where
  flawless : document.flaw? = none
  given : writtenUnits document ≠ []
  units : ∀ unit ∈ document.units, unit.Hollow
  requires : document.requires = []

variable {document : Document}

private theorem HollowDocument.fair (hollow : HollowDocument document)
    (bare : ∀ unit ∈ writtenUnits document, ∀ segment ∈ unit.path, BareName segment) : FairDocument document := by
  have each : ∀ unit ∈ writtenUnits document, unit.Hollow := fun unit member =>
    hollow.units unit (List.mem_filter.mp member).1
  exact ⟨hollow.flawless, hollow.given, fun unit member => fair_of_hollow (each unit member) (bare unit member),
    fun unit member => mixins_of_hollow (each unit member),
    fun unit member => undescribed_of_hollow (each unit (List.mem_of_mem_tail member)),
    by simp [hollow.requires]⟩

private theorem HollowDocument.separated (hollow : HollowDocument document) :
    HollowDocument document.separated where
  flawless := by
    obtain ⟨once, requires⟩ := Document.flaw?_eq_none_iff.mp hollow.flawless
    refine Document.flaw?_eq_none_iff.mpr ⟨?_, requires⟩
    have names : document.separated.units.map (·.qualifiedName) =
        (writtenUnits document).map (·.qualifiedName) := by
      rw [Document.separated, writtenUnits, List.map_map]
      exact List.map_congr_left fun unit _ => unit.qualifiedName_separated
    rw [names]
    exact (List.filter_sublist.map _).nodup once
  given := by
    rw [writtenUnits_separated]
    simpa using hollow.given
  units unit member := by
    obtain ⟨held, listed, rfl⟩ := List.mem_map.mp member
    exact hollow_separated (hollow.units held (List.mem_filter.mp listed).1)
  requires := hollow.requires

/-- A document of units without contents at paths of bare names comes back from its text. -/
theorem HollowDocument.exists_reread [DataFormat] (hollow : HollowDocument document)
    (bare : ∀ unit ∈ writtenUnits document, ∀ segment ∈ unit.path, BareName segment)
    {settings : RenderSettings} (checked : settings.checked = .ok settings) (shown : RenderSettings)
    (filename : Option String) :
    ∃ text reread, (write settings document).result = .ok text ∧ (read filename text).result = .ok reread ∧
      Branch.shape (Branch.forest reread.units) = Branch.shape (Branch.forest (writtenUnits document)) ∧
      (Dispensable document → Render.ruby shown reread = Render.ruby shown document) := by
  have front : frontMatter document (writtenUnits document).head? = [] :=
    frontMatter_of_hollow hollow.requires fun unit member =>
      hollow.units unit (List.mem_filter.mp (List.mem_of_mem_head? member)).1
  refine (hollow.fair bare).exists_reread checked (fun given => absurd front given) ?_ filename
  intro unit member method listed
  rw [(contents_of_hollow (hollow.units unit member)).1] at listed
  cases listed

private theorem hollowDocument_of_walk {scene : Ruby.Scene} {filename : Option String}
    (trees : ∀ tree ∈ scene.root.namedChildren, tree.isComment = false → Ruby.Hollow scene tree)
    (walked : (Ruby.walk scene (Draft.empty filename)).result = .ok document) (given : document.units ≠ []) :
    HollowDocument document := by
  obtain ⟨hollow, requires⟩ := Ruby.hollow_of_walk trees walked
  have returned := Document.Returned.walk walked
  refine ⟨returned.flawless.1, ?_, hollow, requires⟩
  obtain ⟨unit, rest, units⟩ := List.exists_cons_of_ne_nil given
  have listed : unit ∈ document.units := by rw [units]; exact List.mem_cons_self
  have real : ∃ unit ∈ document.units, unit.isNamespaceOnly = false := by
    cases mere : unit.isNamespaceOnly with
    | false => exact ⟨unit, listed, mere⟩
    | true =>
      obtain ⟨inner, within, real, _⟩ := exists_real returned.exists_inside unit listed mere
      exact ⟨inner, within, real⟩
  obtain ⟨inner, within, real⟩ := real
  exact List.ne_nil_of_mem (List.mem_filter.mpr ⟨within, by simp [real]⟩)

/-! ## The code of what is read again -/

/-- Units that a walk finds in a tree of units alone are written, the text is read, and what is read renders the
code of the document with its paths split and its mere namespaces left out. The blocks have the names, the nesting
and the order that they have in the code of the document itself exactly if no part of a path is scoped and the
mere namespaces can be left out; then the code is the same. -/
theorem ruby_of_walk [DataFormat] {scene : Ruby.Scene} {source : Option String}
    (trees : ∀ tree ∈ scene.root.namedChildren, tree.isComment = false → Ruby.Hollow scene tree)
    (walked : (Ruby.walk scene (Draft.empty source)).result = .ok document) (given : document.units ≠ [])
    {settings : RenderSettings} (checked : settings.checked = .ok settings) (shown : RenderSettings)
    (filename : Option String) :
    ∃ text reread code, (write settings document).result = .ok text ∧ (read filename text).result = .ok reread ∧
      Render.ruby shown reread = .ok code ∧ Render.ruby shown document.separated = .ok code ∧
      (Branch.shape (Branch.forest reread.units) = Branch.shape (Branch.forest document.units) ↔
        (∀ unit ∈ writtenUnits document, ∀ segment ∈ unit.path, ':' ∉ segment.toList) ∧ Dispensable document) ∧
      ((∀ unit ∈ writtenUnits document, ∀ segment ∈ unit.path, ':' ∉ segment.toList) → Dispensable document →
        Render.ruby shown document = .ok code) := by
  have hollow := hollowDocument_of_walk trees walked given
  have split := hollow.separated
  have bare : ∀ unit ∈ writtenUnits document, ∀ segment ∈ unit.separated.path, BareName segment :=
    fun unit member => bare_separated (hollow.units unit (List.mem_filter.mp member).1)
  have all : writtenUnits document.separated = document.separated.units := writtenUnits_separated document
  have bareSplit : ∀ unit ∈ writtenUnits document.separated, ∀ segment ∈ unit.path, BareName segment := by
    rw [writtenUnits_separated]
    exact List.forall_mem_map.mpr bare
  obtain ⟨text, reread, writes, reads, shape, same⟩ := split.exists_reread bareSplit checked shown filename
  have same := same (dispensable_of_real (real_of_separated document))
  obtain ⟨code, renders⟩ := Branch.ruby_succeeds shown (Document.flaw?_eq_none_iff.mp split.flawless).1
    fun unit member => unitSections_of_hollow (split.units unit member) shown
  rw [write_separated] at writes
  rw [all] at shape
  refine ⟨text, reread, code, writes, reads, same.trans renders, renders, shape ▸ shape_separated_iff bare,
    fun unscoped dispensable => ?_⟩
  have bareWhole : ∀ unit ∈ writtenUnits document, ∀ segment ∈ unit.path, BareName segment := by
    intro unit member
    rw [← path_separated_of_unscoped (unscoped unit member)]
    exact bare unit member
  obtain ⟨other, again, writesToo, readsToo, _, sameToo⟩ := hollow.exists_reread bareWhole checked shown filename
  obtain rfl : text = other := Except.ok.inj (writes.symm.trans writesToo)
  obtain rfl : reread = again := Except.ok.inj (reads.symm.trans readsToo)
  rw [← sameToo dispensable, same, renders]

/-! ## Three trees -/

/-- A tree of units alone makes a document that is written as a text; the document renders the code before, and
what is read of the text renders the code after. -/
structure Passes [DataFormat] (scene : Ruby.Scene) (text before after : String) : Prop where
  trees : ∀ tree ∈ scene.root.namedChildren, tree.isComment = false → Ruby.Hollow scene tree
  passes : ∃ document reread, (Ruby.walk scene (Draft.empty none)).result = .ok document ∧
    (write .default document).result = .ok text ∧ (read none text).result = .ok reread ∧
    Render.ruby .default document = .ok before ∧ Render.ruby .default reread = .ok after

private theorem trees_of_looks {scene : Ruby.Scene} {depth : Nat}
    (looks : scene.root.namedChildren.all (Ruby.looksHollow scene depth) = true) :
    ∀ tree ∈ scene.root.namedChildren, tree.isComment = false → Ruby.Hollow scene tree :=
  fun tree listed _ => Ruby.hollow_of_looks (List.all_eq_true.mp looks tree listed)

private theorem passes_of_computed [DataFormat] {scene : Ruby.Scene} {text before after : String} {depth : Nat}
    (looks : scene.root.namedChildren.all (Ruby.looksHollow scene depth) = true)
    (walks : (Ruby.walk scene (Draft.empty none)).result.toOption.map (fun document =>
      ((write .default document).result, Render.ruby .default document)) = some (.ok text, .ok before))
    (reads : (read none text).result.toOption.map (Render.ruby .default) = some (.ok after)) :
    Passes scene text before after where
  trees := trees_of_looks looks
  passes := by
    obtain ⟨document, walked, seen⟩ := Except.exists_of_toOption walks
    obtain ⟨reread, success, renders⟩ := Except.exists_of_toOption reads
    exact ⟨document, reread, walked, (Prod.mk.inj seen).1, success, (Prod.mk.inj seen).2, renders⟩

/-- A class in a module that is reopened by its scoped name comes back: a nested unit lives at the path of the
body in which the unit around it was first opened. -/
theorem ruby_of_walk_of_two_spellings : Passes Ruby.reopenedByPath "# A::B\n\n# A::B::C\n"
    "module A\n  class B\n    class C\n    end\n  end\nend\n"
    "module A\n  class B\n    class C\n    end\n  end\nend\n" := by
  have looks : (Ruby.reopenedByPath.root.namedChildren.all (Ruby.looksHollow Ruby.reopenedByPath 2)) = true := by
    decide +kernel
  have walks : (Ruby.walk Ruby.reopenedByPath (Draft.empty none)).result.toOption.map (fun document =>
      (document.units.map (fun unit => (unit.path, unit.scope, unit.isNamespaceOnly)),
        (write .default document).result, Render.ruby .default document)) =
      some ([(["A"], [], true), (["A", "B"], ["A"], false), (["A", "B", "C"], ["A", "B"], false)],
        .ok "# A::B\n\n# A::B::C\n", .ok "module A\n  class B\n    class C\n    end\n  end\nend\n") := by
    decide +kernel
  obtain ⟨document, walked, seen⟩ := Except.exists_of_toOption walks
  simp only [Prod.mk.injEq] at seen
  obtain ⟨units, writes, renders⟩ := seen
  obtain ⟨outer, middle, inner, listed⟩ : ∃ outer middle inner, document.units = [outer, middle, inner] :=
    List.length_eq_three.mp (by simpa using congrArg List.length units)
  simp only [listed, List.map_cons, List.map_nil, List.cons.injEq, Prod.mk.injEq, and_true] at units
  obtain ⟨⟨first, _, mere⟩, ⟨second, within, real⟩, third, _, last⟩ := units
  have unscoped : ∀ unit ∈ writtenUnits document, ∀ segment ∈ unit.path, ':' ∉ segment.toList := by
    simp [writtenUnits, listed, mere, real, last, second, third]
  have led : Led document.units := by
    rw [listed]
    refine ⟨fun _ => ?_, fun other => absurd (real.symm.trans other) (by decide), last⟩
    rw [first, within]
  have checked : RenderSettings.default.checked = .ok .default := by decide +kernel
  obtain ⟨text, reread, code, written, success, again, _, _, same⟩ :=
    ruby_of_walk (trees_of_looks looks) walked (by simp [listed]) checked .default none
  have rendered := same unscoped (dispensable_of_led led)
  rw [writes] at written
  rw [renders] at rendered
  cases written
  cases rendered
  exact ⟨trees_of_looks looks, document, reread, walked, writes, success, renders, again⟩

def scopedClass : Ruby.Scene where
  source := .ofText "class A::B\nend\n"
  root := .node { kind := "program", start := 0, stop := 15 }
    [.node { kind := "class", start := 0, stop := 14 }
      [.node { kind := "scope_resolution", start := 6, stop := 10, field := some "name" } []]]

/-- A module that is opened a second time with a class in it, after another class. -/
def reopenedModule : Ruby.Scene where
  source := .ofText "module M\nend\nclass X\nend\nmodule M\n  class Y\n  end\nend\n"
  root := .node { kind := "program", start := 0, stop := 54 }
    [.node { kind := "module", start := 0, stop := 12 }
        [.node { kind := "constant", start := 7, stop := 8, field := some "name" } []],
      .node { kind := "class", start := 13, stop := 24 }
        [.node { kind := "constant", start := 19, stop := 20, field := some "name" } []],
      .node { kind := "module", start := 25, stop := 53 }
        [.node { kind := "constant", start := 32, stop := 33, field := some "name" } [],
          .node { kind := "body_statement", start := 36, stop := 49, field := some "body" }
            [.node { kind := "class", start := 36, stop := 49 }
              [.node { kind := "constant", start := 42, stop := 43, field := some "name" } []]]]]

/-- A scoped name comes back as two blocks, and a module that was opened before another class comes back after
that class if a unit is nested in it only later. -/
theorem blocks_changed_of_scoped :
    Passes scopedClass "# A::B\n" "class A::B\nend\n" "module A\n  class B\n  end\nend\n" ∧
      Passes reopenedModule "# X\n\n# M::Y\n" "module M\n  class Y\n  end\nend\n\nclass X\nend\n"
        "class X\nend\n\nmodule M\n  class Y\n  end\nend\n" := by
  have single : scopedClass.root.namedChildren.all (Ruby.looksHollow scopedClass 1) = true := by decide +kernel
  have nested : reopenedModule.root.namedChildren.all (Ruby.looksHollow reopenedModule 2) = true := by
    decide +kernel
  exact ⟨passes_of_computed single (by decide +kernel) (by decide +kernel),
    passes_of_computed nested (by decide +kernel) (by decide +kernel)⟩

end Literate

end LiterateRuby
