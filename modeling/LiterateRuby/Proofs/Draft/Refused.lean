import LiterateRuby.Proofs.Draft.Effect

/-! # Calls for a unit that is there

A call for a unit that a draft holds is refused only for what it says, and the draft holds the unit after
it as before. Such a refusal is `Ordinary`: no unit is unknown, no unit lacks a name, and nothing is built.
-/

namespace LiterateRuby.Draft

/-- A refusal of what a call says of a unit that is there. -/
def Refusal.Ordinary : Refusal → Prop
  | .unnamedUnit | .unknownUnit _ | .noMetadata | .invalidUnit _ | .invalidDocument _ | .builtTwice => False
  | _ => True

def HasUnit (key : String) (draft : Draft) : Prop := key ∈ draft.units.keys

/-- A change goes on with a unit, or is refused for what it says. -/
abbrev Continues (key : String) : Except Refusal Draft → Prop := Except.Meets (HasUnit key) Refusal.Ordinary

section

variable {draft : Draft} {key : String} (present : draft.HasUnit key)
include present

private theorem exists_get?_of_hasUnit : ∃ unit, draft.units.get? key = some unit := by
  cases found : draft.units.get? key with
  | none => exact absurd present (Entries.get?_eq_none_iff.mp found)
  | some unit => exact ⟨unit, rfl⟩

theorem continues_change (update : UnitDraft → UnitDraft) : Continues key (draft.change key update) := by
  obtain ⟨unit, found⟩ := exists_get?_of_hasUnit present
  rw [change_eq_ok_iff.mpr ⟨unit, found, rfl⟩]
  change key ∈ Entries.keys (draft.units.adjust key update)
  rwa [Entries.keys_adjust]

private theorem continues_unit {next : UnitDraft → Except Refusal Draft}
    (continues : ∀ unit, Continues key (next unit)) : Continues key (draft.unit key >>= next) := by
  obtain ⟨unit, found⟩ := exists_get?_of_hasUnit present
  rw [unit_eq_ok_iff.mpr found]
  exact continues unit

theorem continues_setSuperclass (superclass : String) :
    Continues key (draft.setSuperclass key superclass).result := by
  unfold setSuperclass
  rw [Outcome.result_bind]
  refine continues_unit present fun unit => ?_
  cases unit.kind with
  | cls => exact continues_change present _
  | mod => exact present

theorem continues_addMethod (entry : MethodEntry) : Continues key (draft.addMethod key entry) := by
  refine continues_unit present fun unit => ?_
  cases (entry.inUnit unit).checked with
  | ok method => exact continues_change present _
  | error flaw => trivial

theorem continues_addConstant (name : String) (value : Constant) :
    Continues key (draft.addConstant key name value) := by
  unfold addConstant
  split
  · trivial
  · exact continues_change present _

theorem continues_addClassVariable (name : String) (value : Constant) :
    Continues key (draft.addClassVariable key name value) := by
  unfold addClassVariable
  split
  · trivial
  · exact continues_change present _

theorem continues_addAttribute (accessor : Accessor) (names : List String) :
    Continues key (draft.addAttribute key accessor names) := by
  unfold addAttribute
  cases Attribute.checked accessor names with
  | ok declaration => exact continues_change present _
  | error flaw => trivial

theorem continues_addAlias (new old : String) : Continues key (draft.addAlias key new old) := by
  refine continues_unit present fun unit => ?_
  split
  · trivial
  · exact continues_change present _

theorem continues_addAliasMethod (new old : String) : Continues key (draft.addAliasMethod key new old) := by
  refine continues_unit present fun unit => ?_
  split
  · trivial
  · exact continues_change present _

end

/-- Opening a unit by a name is refused only if it is there with the other kind. -/
theorem continues_addUnit (draft : Draft) {name : String} (named : name ≠ "") (kind : RubyUnit.Kind)
    (scope : List String) :
    Except.Meets (fun (next, key) => key = keyOf name scope ∧ next.HasUnit key) Refusal.Ordinary
      (draft.addUnit name kind scope) := by
  unfold addUnit
  rw [if_neg named]
  cases found : draft.units.get? (keyOf name scope) with
  | none => exact ⟨rfl, Entries.mem_keys_put.mpr (.inr rfl)⟩
  | some unit =>
    have present : draft.HasUnit (keyOf name scope) := Entries.mem_keys_of_get? found
    dsimp only
    split
    · refine ⟨rfl, ?_⟩
      unfold HasUnit
      rwa [Entries.keys_adjust]
    · split
      · exact ⟨rfl, present⟩
      · trivial

end LiterateRuby.Draft
