import LiterateRuby.Proofs.Draft.Kind

/-! # What only front matter says of a unit

The superclass, the mixins and the aliases of a unit are its matter. Five calls change it, each that of the
unit that it addresses (`matter_of_update`); any other calls leave it alone (`slotRun?_of_silent`). A module
never has a superclass, so the matter that was collected is that of the frozen unit (`Settled.frozen`).
-/

namespace LiterateRuby

/-- The superclass, the mixins and the aliases of a unit. -/
@[ext] structure Matter where
  superclass : Option String := none
  included : List String := []
  extended : List String := []
  aliases : Entries String String := []
  aliasMethods : Entries String String := []
  deriving DecidableEq, Repr

def RubyUnit.matter (unit : RubyUnit) : Matter :=
  ⟨unit.superclass?, unit.included, unit.extended, unit.aliases, unit.aliasMethods⟩

def UnitDraft.matter (unit : UnitDraft) : Matter :=
  ⟨unit.superclass, unit.included, unit.extended, unit.aliases, unit.aliasMethods⟩

/-- Only a class has a superclass, and a unit that only holds others is no class. -/
structure UnitDraft.Settled (unit : UnitDraft) : Prop where
  holder : unit.holder = true → unit.kind = .mod
  superclass : unit.superclass.isSome = true → unit.kind = .cls

namespace Draft

/-- What a call makes of the matter of the unit that it addresses, which is of some kind. -/
def Call.onMatter (kind : RubyUnit.Kind) (matter : Matter) : Call → Matter
  | .setSuperclass _ superclass =>
    match kind with
    | .cls => { matter with superclass := some superclass }
    | .mod => matter
  | .addInclude _ name => { matter with included := appendOnce matter.included name }
  | .addExtend _ name => { matter with extended := appendOnce matter.extended name }
  | .addAlias _ new old => { matter with aliases := matter.aliases.put new old }
  | .addAliasMethod _ new old => { matter with aliasMethods := matter.aliasMethods.put new old }
  | _ => matter

def Call.Silent : Call → Prop
  | .setSuperclass _ _ | .addInclude _ _ | .addExtend _ _ | .addAlias _ _ _ | .addAliasMethod _ _ _ => False
  | _ => True

theorem Call.Silent.onMatter {call : Call} (silent : call.Silent) (kind : RubyUnit.Kind) (matter : Matter) :
    call.onMatter kind matter = matter := by
  cases call <;> first | rfl | cases silent

private theorem matter_of_fresh {call : Call} {unit : UnitDraft} (fresh : call.fresh? = some unit) :
    unit.matter = {} ∧ unit.Settled := by
  cases Call.opens_of_fresh? fresh with
  | unit named => exact ⟨rfl, by simp, by simp⟩
  | holder => exact ⟨rfl, fun _ => rfl, by simp⟩

/-- A call does to the matter of a unit what it says, and nothing else. -/
theorem matter_of_update {call : Call} {held unit : UnitDraft} (updated : call.update? held = some unit) :
    unit.matter = call.onMatter held.kind held.matter := by
  cases Call.updates_of_update? updated with
  | inherited nature | uninherited nature => simp only [Call.onMatter, nature, UnitDraft.matter]
  | _ => rfl

/-- A unit that has a superclass is no holder, so it is not opened as another kind. -/
theorem settled_of_update {call : Call} {held unit : UnitDraft} (settled : held.Settled)
    (updated : call.update? held = some unit) : unit.Settled := by
  cases Call.updates_of_update? updated with
  | adopted named holds =>
    refine ⟨by simp, fun given => ?_⟩
    exact absurd ((settled.superclass given).symm.trans (settled.holder holds)) (by decide)
  | inherited nature => exact ⟨settled.holder, fun _ => nature⟩
  | _ => exact ⟨settled.holder, settled.superclass⟩

/-- Calls keep a unit settled. -/
theorem slotRun?_settled {key : String} {calls : List Call} {slot : Option UnitDraft} {unit : UnitDraft}
    (settled : ∀ held, slot = some held → held.Settled)
    (run : slotRun? key slot calls = some (some unit)) : unit.Settled :=
  slotRun?_preserves settled (fun _ _ _ _ fresh => (matter_of_fresh fresh).2)
    (fun _ _ _ _ _ settled updated => settled_of_update settled updated) run

/-- Silent calls leave the matter of a unit alone, and give none to a unit that they open. -/
theorem slotRun?_of_silent {key : String} {calls : List Call} {slot : Option UnitDraft} {unit : UnitDraft}
    (silent : ∀ call ∈ calls, call.unit? = some key → call.Silent)
    (run : slotRun? key slot calls = some (some unit)) :
    unit.matter = (slot.map UnitDraft.matter).getD {} := by
  induction calls generalizing slot with
  | nil =>
    cases run
    rfl
  | cons call rest ih =>
    have later := fun other member => silent other (List.mem_cons_of_mem call member)
    by_cases addressed : call.unit? = some key
    · rw [slotRun?_cons_of_unit addressed] at run
      obtain ⟨next, effect, run⟩ := Option.bind_eq_some_iff.mp run
      rw [ih later run, Option.map_some, Option.getD_some]
      cases slot with
      | none => exact (matter_of_fresh effect).1
      | some held =>
        rw [matter_of_update effect]
        exact (silent call List.mem_cons_self addressed).onMatter _ _
    · rw [slotRun?_cons_of_ne addressed] at run
      exact ih later run

/-- Calls to a unit that open nothing do to its matter what they say, one after the other. -/
theorem slotRun?_matter {key : String} {calls : List Call} {held unit : UnitDraft}
    (own : ∀ call ∈ calls, call.unit? = some key ∧ call.kind? = none)
    (run : slotRun? key (some held) calls = some (some unit)) :
    unit.matter = calls.foldl (Call.onMatter held.kind) held.matter := by
  induction calls generalizing held with
  | nil =>
    cases run
    rfl
  | cons call rest ih =>
    obtain ⟨addressed, opens⟩ := own call List.mem_cons_self
    rw [slotRun?_cons_of_unit addressed] at run
    obtain ⟨next, effect, run⟩ := Option.bind_eq_some_iff.mp run
    rw [ih (fun other member => own other (List.mem_cons_of_mem call member)) run,
      (Call.update?_kind opens effect).1, matter_of_update effect, List.foldl_cons]

end Draft

/-- A settled unit keeps its matter when it is frozen. -/
theorem UnitDraft.Settled.frozen {unit : UnitDraft} (settled : unit.Settled)
    (named : unit.superclass ≠ some "") : unit.frozen.matter = unit.matter := by
  have kept : unit.frozen.superclass? = unit.superclass := by
    rw [superclass?_frozen, UnitDraft.superclass?_plain]
    cases superclass : unit.superclass with
    | none => simp
    | some name =>
      rw [superclass] at named
      rw [if_pos (settled.superclass (by rw [superclass, Option.isSome_some])),
        Option.filter_some_pos (by simpa using named)]
  obtain ⟨nature, same⟩ := unit.frozen_eq
  unfold RubyUnit.matter UnitDraft.matter
  rw [kept, same]
  rfl

end LiterateRuby
