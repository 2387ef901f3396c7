import LiterateRuby.Proofs.Draft.Consistent
import LiterateRuby.Proofs.Draft.Independent

/-! # Opening units in any order

Calls that only open units define them or ask that they be there to hold others. Such calls are consistent if
all definitions of a unit agree on its kind, in whatever order they come, and they tell all that there is to
tell of the unit: it is of the kind that it is defined as, and a mere namespace if it is not defined at all
(`frozen_of_opening`). So the order of the calls decides nothing but the order of the units.
-/

namespace LiterateRuby

/-- What a unit stands as: its qualified name, its kind and whether it stands only for nested units. -/
def RubyUnit.standing (unit : RubyUnit) : String × RubyUnit.Kind × Bool :=
  (unit.qualifiedName, unit.kind, unit.isNamespaceOnly)

/-- A unit that nothing was added to and that is not marked as a mere namespace. -/
structure UnitDraft.Bare (unit : UnitDraft) : Prop where
  hollow : unit.plain.hasOwnContent = false
  unmarked : unit.namespaceOnly = false

namespace Draft

variable {key : String} {calls other : List Call}

/-! ## What calls that open a unit make of it -/

private theorem Call.given_of_opened {call : Call} (opens : call.opened?.isSome = true) : call.Given := by
  cases call with
  | setMetadata metadata => cases opens
  | _ => trivial

private theorem bare_of_fresh {call : Call} {unit : UnitDraft} (fresh : call.fresh? = some unit) : unit.Bare := by
  cases Call.opens_of_fresh? fresh with
  | @unit _ kind _ named => exact ⟨by cases kind <;> rfl, rfl⟩
  | holder => exact ⟨rfl, rfl⟩

/-- Opening a unit again adds nothing to it. -/
theorem bare_of_reopened {call : Call} {held unit : UnitDraft} (opens : call.opened?.isSome = true)
    (bare : held.Bare) (updated : call.update? held = some unit) : unit.Bare := by
  cases Call.updates_of_update? updated with
  | adopted named holds => exact ⟨bare.hollow, bare.unmarked⟩
  | reopened _ _ _ | held => exact bare
  | _ => cases opens

/-- A unit that is only opened is of the kind that it is defined as. If it is not defined it is a module, and
only then it is a mere namespace. -/
theorem frozen_of_opening {unit : UnitDraft} (opens : ∀ call ∈ calls, call.opened?.isSome = true)
    (run : slotRun? key none calls = some (some unit)) :
    unit.frozen.kind = (kindsOf key calls).headD .mod ∧
      unit.frozen.isNamespaceOnly = (kindsOf key calls).isEmpty := by
  have bare : unit.Bare := slotRun?_preserves (by simp) (fun call _ _ made => bare_of_fresh)
    (fun call member _ held made => bare_of_reopened (opens call member)) run
  have kinded : unit.Kinded (kindsOf key calls) :=
    @slotRun?_kinded key calls [] none unit (by simp) (fun _ => rfl) run
  rw [kind_frozen, UnitDraft.isNamespaceOnly_frozen]
  cases kinds : kindsOf key calls with
  | nil =>
    rw [kinds] at kinded
    have mere := kinded.mere rfl
    exact ⟨mere, by simp [UnitDraft.isNamespace, mere, kinded.holder, bare.hollow]⟩
  | cons kind rest =>
    rw [kinds] at kinded
    exact ⟨(kinded.agree kind List.mem_cons_self).symm,
      by simp [UnitDraft.isNamespace, kinded.holder, bare.unmarked]⟩

/-- What a unit that calls only open stands as, if they open it. -/
def standingOf (key : String) (calls : List Call) : Option (String × RubyUnit.Kind × Bool) :=
  if calls.any (·.unit? == some key) then
    some (key, (kindsOf key calls).headD .mod, (kindsOf key calls).isEmpty)
  else none

private theorem Runs.standing {filename : Option String} {draft : Draft}
    (opens : ∀ call ∈ calls, call.opened?.isSome = true) (run : (empty filename).Runs calls draft) (key : String) :
    (draft.units.get? key).map (fun unit => unit.frozen.standing) = standingOf key calls := by
  have slot : slotRun? key none calls = some (draft.units.get? key) := run.get? key
  have there : draft.units.get? key = none ↔ calls.any (·.unit? == some key) = false := by
    rw [slotRun?_eq_some_none_iff slot, List.find?_eq_none, List.any_eq_false]
  cases found : draft.units.get? key with
  | none =>
    rw [standingOf, there.mp found]
    rfl
  | some unit =>
    have addressed : calls.any (·.unit? == some key) = true := by
      rw [← Bool.not_eq_false, ← there, found]
      exact Option.some_ne_none unit
    rw [found] at slot
    obtain ⟨kind, mere⟩ := frozen_of_opening opens slot
    rw [standingOf, if_pos addressed, Option.map_some, RubyUnit.standing, UnitDraft.frozen_qualifiedName,
      run.keyed.named key unit found, kind, mere]

/-! ## Other orders -/

private theorem kindsOf_perm (perm : calls.Perm other) : (kindsOf key calls).Perm (kindsOf key other) :=
  (perm.filter _).filterMap _

private theorem Runs.consistent {filename : Option String} {draft : Draft} (run : (empty filename).Runs calls draft)
    (key : String) : Consistent key calls :=
  slotRun?_isSome_iff.mp (Option.isSome_of_eq_some (run.get? key))

/-- Calls that only open units are consistent in every order if they are in one. -/
theorem Consistent.perm (consistent : Consistent key calls) (opens : ∀ call ∈ calls, call.opened?.isSome = true)
    (perm : calls.Perm other) : Consistent key other where
  opens call found := opens call (perm.mem_iff.mpr (List.mem_of_find?_eq_some found))
  flawless call member := consistent.flawless call (perm.mem_iff.mpr member)
  agree kind member later listed := by
    have kinds := @kindsOf_perm key calls other perm
    exact consistent.agree kind (kinds.mem_iff.mpr member) later (kinds.mem_iff.mpr listed)
  apart name member taken := by
    have spelled : (aliasesOf key calls).Perm (aliasesOf key other) := (perm.filter _).filterMap _
    have called : (aliasMethodsOf key calls).Perm (aliasMethodsOf key other) := (perm.filter _).filterMap _
    exact consistent.apart name (spelled.mem_iff.mpr member) (called.mem_iff.mpr taken)

/-- Definitions that agree can be read from any of them. -/
theorem headD_of_agree {kinds others : List RubyUnit.Kind} (perm : kinds.Perm others)
    (agree : ∀ kind ∈ kinds, ∀ other ∈ kinds, kind = other) (default : RubyUnit.Kind) :
    kinds.headD default = others.headD default := by
  cases others with
  | nil => rw [perm.eq_nil]
  | cons other rest =>
    cases kinds with
    | nil => exact absurd perm.symm.eq_nil (List.cons_ne_nil other rest)
    | cons kind more => exact agree kind List.mem_cons_self other (perm.mem_iff.mpr List.mem_cons_self)

/-- Calls that are taken declare the same of a unit in every order. -/
theorem standingOf_perm (consistent : Consistent key calls) (perm : calls.Perm other) :
    standingOf key calls = standingOf key other := by
  have kinds : (kindsOf key calls).Perm (kindsOf key other) := kindsOf_perm perm
  have agree : (kindsOf key calls).headD .mod = (kindsOf key other).headD .mod :=
    headD_of_agree kinds consistent.agree .mod
  rw [standingOf, standingOf, perm.any_eq, agree, kinds.isEmpty_eq]

/-- Whether calls that only open units are all taken does not depend on their order, and neither does what the
document that they build says of each unit: what the calls declare. -/
theorem build_of_perm {filename : Option String} (opens : ∀ call ∈ calls, call.opened?.isSome = true)
    (proper : ∀ call ∈ calls, call.Proper) (all : (empty filename).accepted calls = calls)
    (perm : calls.Perm other) :
    (empty filename).accepted other = other ∧
      ∃ document reordered, ((empty filename).afterAll calls).build.2 = .ok document ∧
        ((empty filename).afterAll other).build.2 = .ok reordered ∧
        (∀ name, (document.unit? name).map RubyUnit.standing = standingOf name calls) ∧
        (document.units.map RubyUnit.standing).Perm (reordered.units.map RubyUnit.standing) := by
  have run := (empty filename).runs_accepted calls
  rw [all] at run
  have reopens : ∀ call ∈ other, call.opened?.isSome = true := fun call member =>
    opens call (perm.mem_iff.mpr member)
  have given : ∀ call ∈ other, call.Given := fun call member => Call.given_of_opened (reopens call member)
  have properToo : ∀ call ∈ other, call.Proper := fun call member => proper call (perm.mem_iff.mpr member)
  obtain ⟨next, again⟩ := (@exists_runs_of_empty_iff filename other given).mpr fun key =>
    (run.consistent key).perm opens perm
  obtain ⟨reached, taken⟩ := again.afterAll
  rw [reached]
  refine ⟨taken, _, _, (run.holds (holds_empty filename) proper).build_eq,
    (again.holds (holds_empty filename) properToo).build_eq, fun name => ?_, ?_⟩
  · rw [run.keyed.unit?_document, Option.map_map]
    exact run.standing opens name
  · apply run.keyed.perm_map_document again.keyed
    intro key
    rw [run.standing opens, again.standing reopens, standingOf_perm (run.consistent key) perm]

/-- Calls that open four units. The outer class is first asked for to hold another one, the class in it is
defined in two spellings, and the last unit is only asked for. -/
def openings : List Call :=
  [.ensureHolder "A" [], .addUnit "B" .cls ["A"], .ensureHolder "A::B" [], .addUnit "C" .mod ["A", "B"],
    .addUnit "A" .cls [], .ensureHolder "D" [], .addUnit "A::B" .cls []]

/-- They are taken in the opposite order too. The outer unit is a class, and the last one only holds others. -/
theorem build_of_perm_openings :
    (empty none).accepted openings.reverse = openings.reverse ∧
      ∃ document reordered, ((empty none).afterAll openings).build.2 = .ok document ∧
        ((empty none).afterAll openings.reverse).build.2 = .ok reordered ∧
        (document.unit? "A").map RubyUnit.standing = some ("A", .cls, false) ∧
        (document.unit? "D").map RubyUnit.standing = some ("D", .mod, true) ∧
        (document.units.map RubyUnit.standing).Perm (reordered.units.map RubyUnit.standing) := by
  have single : ∀ name ∈ ["A", "B", "C", "D"], "" ∉ Text.scopeSegments name := by decide
  have pair : "" ∉ Text.scopeSegments "A::B" := by decide
  have proper : ∀ call ∈ openings, call.Proper := by
    intro call member
    simp only [openings, List.mem_cons, List.not_mem_nil, or_false] at member
    rcases member with rfl | rfl | rfl | rfl | rfl | rfl | rfl <;>
      first
        | exact ⟨by decide, single _ (by decide), by decide⟩
        | exact ⟨by decide, pair, by decide⟩
  obtain ⟨taken, document, reordered, built, rebuilt, each, same⟩ :=
    @build_of_perm openings openings.reverse none (by decide) proper (by rfl) openings.reverse_perm.symm
  refine ⟨taken, document, reordered, built, rebuilt, ?_, ?_, same⟩
  · rw [each]
    decide +kernel
  · rw [each]
    decide +kernel

end Draft

end LiterateRuby
