import LiterateRuby.Proofs.Literate.UnitTitle
import LiterateRuby.Proofs.UnitName

/-! # Trees of units and nothing else

A tree can hold classes and modules alone, with comments between them, nested to any depth (`Hollow`). A walk
over such trees only opens units and marks namespaces. So the units of the document have names and kinds, but
neither contents nor superclasses (`hollow_of_walk`).
-/

namespace LiterateRuby

open Draft (Call slotRun?_preserves)
open Literate (ScopedName)

/-! ## Units without contents -/

/-- A class or module without contents and superclass. -/
structure RubyUnit.Hollow (unit : RubyUnit) : Prop where
  named : ScopedName unit.qualifiedName
  contents : unit.hasOwnContent = false
  superclass : unit.superclass? = none

namespace Draft

/-- Calls that open units by scoped names, or mark them as namespaces. -/
def Call.Outlines : Call → Prop
  | .addUnit name _ _ => ScopedName name
  | .markNamespaceOnly _ => True
  | _ => False

/-- Such calls give nothing to a unit. -/
theorem Call.Outlines.update? {call : Call} (outlines : call.Outlines) {held unit : UnitDraft}
    (updated : call.update? held = some unit) :
    unit.superclass = held.superclass ∧ unit.plain.hasOwnContent = held.plain.hasOwnContent := by
  cases Call.updates_of_update? updated with
  | adopted _ _ | reopened _ _ _ | marked _ | unmarked _ => exact ⟨rfl, rfl⟩
  | _ => cases outlines

private theorem Call.Outlines.fresh? {call : Call} (outlines : call.Outlines) {unit : UnitDraft}
    (fresh : call.fresh? = some unit) : unit.superclass = none ∧ unit.plain.hasOwnContent = false := by
  cases Call.opens_of_fresh? fresh with
  | unit named => exact ⟨rfl, rfl⟩
  | holder => cases outlines

private theorem Call.Outlines.addressed {call : Call} (outlines : call.Outlines) :
    ∃ key, call.unit? = some key := by
  cases call with
  | addUnit name kind scope => exact ⟨_, rfl⟩
  | markNamespaceOnly key => exact ⟨_, rfl⟩
  | _ => cases outlines

/-- Calls to units require nothing. -/
theorem Runs.requires_eq {draft next : Draft} {calls : List Call} (run : draft.Runs calls next)
    (addressed : ∀ call ∈ calls, ∃ key, call.unit? = some key) : next.requires = draft.requires := by
  induction calls generalizing draft with
  | nil => rw [runs_nil.mp run]
  | cons call rest ih =>
    obtain ⟨middle, reply, success, run⟩ := runs_cons.mp run
    obtain ⟨key, target⟩ := addressed call List.mem_cons_self
    obtain ⟨unit, _, touched⟩ := perform_unit target success
    exact (ih run fun other member => addressed other (List.mem_cons_of_mem _ member)).trans touched.requires

/-- What such calls collect has no contents. -/
theorem Runs.hollow {filename : Option String} {calls : List Call} {draft : Draft}
    (run : (empty filename).Runs calls draft) (outlines : ∀ call ∈ calls, call.Outlines)
    (distinct : draft.units.keys.Nodup) :
    ∀ unit ∈ draft.document.units, unit.hasOwnContent = false ∧ unit.superclass? = none := by
  intro unit member
  obtain ⟨⟨key, held⟩, listed, rfl⟩ := List.mem_map.mp member
  have found := (run.get? key).trans (congrArg some (Entries.get?_of_mem distinct listed))
  obtain ⟨superclass, contents⟩ : held.superclass = none ∧ held.plain.hasOwnContent = false := by
    refine slotRun?_preserves (P := fun unit => unit.superclass = none ∧ unit.plain.hasOwnContent = false)
      (by rintro _ ⟨⟩) (fun call member _ made fresh => (outlines call member).fresh? fresh)
      (fun call member _ old made bare updated => ?_) found
    obtain ⟨superclass, contents⟩ := (outlines call member).update? updated
    exact ⟨superclass.trans bare.1, contents.trans bare.2⟩
  have absent : held.plain.superclass? = none := by
    rw [UnitDraft.superclass?_plain, superclass, Option.filter_none, ite_self]
  dsimp only
  unfold UnitDraft.frozen
  split
  · exact ⟨contents, rfl⟩
  · exact ⟨contents, absent⟩

end Draft

/-! ## Trees -/

namespace Ruby

/-- A class or module with a scoped name and without a superclass, that holds nothing but comments and such
classes and modules. -/
inductive Hollow (scene : Scene) : Tree → Prop where
  | unit {tree : Tree} {name : String} (defines : isUnit tree = true) (named : nameOf scene tree = .ok name)
      (spelled : ScopedName name) (bare : tree.child? "superclass" = none)
      (inner : ∀ inside ∈ statementsOf tree, inside.isComment = false → Hollow scene inside) : Hollow scene tree

variable {scene : Scene}

private theorem Hollow.isUnit {tree : Tree} (hollow : Hollow scene tree) : isUnit tree = true := by
  cases hollow
  assumption

/-- Whether a tree is hollow, as far as it is not deeper than some depth. -/
def looksHollow (scene : Scene) : (depth : Nat) → Tree → Bool
  | 0, _ => false
  | depth + 1, tree =>
    Ruby.isUnit tree && (nameOf scene tree).toOption.any Literate.looksScoped && (tree.child? "superclass").isNone &&
      (statementsOf tree).all fun inside => inside.isComment || looksHollow scene depth inside

theorem hollow_of_looks {depth : Nat} {tree : Tree} (looks : looksHollow scene depth tree = true) :
    Hollow scene tree := by
  induction depth generalizing tree with
  | zero => cases looks
  | succ depth ih =>
    simp only [looksHollow, Bool.and_eq_true, Option.any_eq_true, Option.isNone_iff_eq_none, List.all_eq_true,
      Bool.or_eq_true] at looks
    obtain ⟨⟨⟨defines, name, named, spelled⟩, bare⟩, inner⟩ := looks
    have success : nameOf scene tree = .ok name := by
      cases result : nameOf scene tree with
      | error fault =>
        rw [result] at named
        cases named
      | ok other =>
        rw [result] at named
        cases named
        rfl
    refine .unit defines success (Literate.scopedName_of_looks spelled) bare fun inside listed statement => ih ?_
    simpa [statement] using inner inside listed

/-- A unit of units is walked with calls that outline it, by induction on how deep units may still be nested. -/
theorem makes_of_hollow (fuel : Nat) (scope : List String) {tree : Tree} (hollow : Hollow scene tree) :
    Makes Call.Outlines (unitEvents scene fuel scope tree) := by
  induction fuel generalizing scope tree with
  | zero => rintro paths events after ⟨⟩
  | succ fuel ih =>
    cases hollow with
    | @unit _ name defines named spelled bare inner =>
      refine makes_unit (fun other same => ?_) (fun unit made headed => ?_) (fun path unit => ?_) fun _ => trivial
      · cases named.symm.trans same
        exact spelled
      · rw [superclassCalls, bare] at headed
        cases headed
        simp
      · refine makes_body (fun inside listed nested => ?_) (fun inside listed remark other => ?_) {} []
        · exact ih path (inner inside listed (isComment_of_isUnit nested))
        · rw [(inner inside listed remark).isUnit] at other
          cases other

/-- What a walk over such trees finds are units without contents, and no libraries. -/
theorem hollow_of_walk {filename : Option String} {document : Document}
    (trees : ∀ tree ∈ scene.root.namedChildren, tree.isComment = false → Hollow scene tree)
    (success : (walk scene (Draft.empty filename)).result = .ok document) :
    (∀ unit ∈ document.units, unit.Hollow) ∧ document.requires = [] := by
  obtain ⟨events, paths, draft, told, run, enclosed, rfl⟩ := walk_eq_ok success
  have closed := enclosed.document_closed
  have outlines : ∀ call ∈ callsOf events, call.Outlines := by
    refine makes_events (fun tree listed => ?_) [] events paths told
    unfold topEvents
    split
    · next defines => exact makes_of_hollow _ [] (trees tree listed (isComment_of_isUnit defines))
    · next other =>
      have remark : tree.isComment = true := by
        by_contra statement
        exact other (trees tree listed (by simpa using statement)).isUnit
      have silent : topCalls scene tree = .ok [] := by
        have kind : tree.kind = "comment" := by simpa [Tree.isComment] using remark
        rw [topCalls, if_neg (by rw [kind]; decide)]
      refine makes_of callsOf_call fun made makes => ?_
      rw [silent] at makes
      cases makes
      simp
  have bare := run.hollow outlines enclosed.distinct
  have named : ∀ unit ∈ draft.document.units, ScopedName unit.qualifiedName := by
    refine closed.forall_names (fun unit member => ?_) fun outer name => ScopedName.inside
    obtain ⟨call, listed, opened⟩ := run.named enclosed.distinct unit member
    have outline := outlines call listed
    cases call with
    | addUnit name kind scope =>
      cases opened
      exact outline
    | ensureHolder name scope => cases outline
    | _ => cases opened
  exact ⟨fun unit member => ⟨named unit member, (bare unit member).1, (bare unit member).2⟩,
    run.requires_eq fun call listed => (outlines call listed).addressed⟩

end Ruby

end LiterateRuby
