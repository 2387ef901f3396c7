import LiterateRuby.Proofs.Draft.Run

/-! # The kind of a unit while it is collected

A unit takes its kind from the calls that open it, which agree if none of them is refused
(`slotRun?_kinded`). Apart from its kind it becomes the same whatever kind it is opened as: the calls to it
can be leveled, and then they lead to the leveled unit (`slotRun?_told`).
-/

namespace LiterateRuby

/-- A unit draft, taken as a module. -/
def UnitDraft.leveled (unit : UnitDraft) : UnitDraft := { unit with kind := .mod }

namespace Draft

/-- A call, taken to open a module if it opens a unit. -/
def Call.leveled : Call → Call
  | .addUnit name _ scope => .addUnit name .mod scope
  | call => call

/-- A call that treats classes and modules alike. -/
def Call.Kindless : Call → Prop
  | .setSuperclass _ _ | .markNamespaceOnly _ => False
  | _ => True

@[simp] theorem Call.unit?_leveled (call : Call) : call.leveled.unit? = call.unit? := by
  cases call <;> rfl

@[simp] theorem Call.opened?_leveled (call : Call) : call.leveled.opened? = call.opened? := by
  cases call <;> rfl

theorem Call.kindless_leveled {call : Call} : call.leveled.Kindless ↔ call.Kindless := by
  cases call <;> exact Iff.rfl

private theorem Call.fresh?_leveled {call : Call} {unit : UnitDraft} (fresh : call.fresh? = some unit) :
    call.leveled.fresh? = some unit.leveled := by
  rw [Call.fresh?_eq_some_iff] at fresh ⊢
  cases fresh with
  | unit named => exact .unit named
  | holder => exact .holder

/-- What a call makes of a unit does not depend on the kind of the unit. -/
theorem Call.Kindless.update?_leveled {call : Call} {held unit : UnitDraft} (kindless : call.Kindless)
    (updated : call.update? held = some unit) :
    call.leveled.update? held.leveled = some unit.leveled := by
  rw [Call.update?_eq_some_iff] at updated ⊢
  cases updated with
  | inherited _ | uninherited _ | marked _ | unmarked _ => cases kindless
  | adopted named holds => exact .adopted named holds
  | reopened named explicit same => exact .reopened named explicit rfl
  | method flawless => exact .method flawless
  | constant named => exact .constant named
  | classVariable named => exact .classVariable named
  | declared valid => exact .declared valid
  | aliased free => exact .aliased free
  | aliasedMethod free => exact .aliasedMethod free
  | _ => constructor

private theorem Call.Kindless.effect?_leveled {call : Call} {slot : Option UnitDraft} {unit : UnitDraft}
    (kindless : call.Kindless) (effect : call.effect? slot = some unit) :
    call.leveled.effect? (slot.map UnitDraft.leveled) = some unit.leveled := by
  cases slot with
  | none => exact Call.fresh?_leveled effect
  | some held => exact kindless.update?_leveled effect

def told (key : String) (calls : List Call) : List Call :=
  (calls.map Call.leveled).filter (·.unit? == some key)

theorem told_append (key : String) (first second : List Call) :
    told key (first ++ second) = told key first ++ told key second := by
  simp [told]

theorem told_of_elsewhere {key : String} {calls : List Call}
    (elsewhere : ∀ call ∈ calls, call.unit? ≠ some key) : told key calls = [] := by
  refine List.filter_eq_nil_iff.mpr fun call member => ?_
  obtain ⟨made, listed, rfl⟩ := List.mem_map.mp member
  simpa using elsewhere made listed

/-- A unit becomes the same whatever kind it is opened as, its kind apart. -/
theorem slotRun?_told {key : String} {slot after : Option UnitDraft} {calls : List Call}
    (kindless : ∀ call ∈ told key calls, call.Kindless) (success : slotRun? key slot calls = some after) :
    slotRun? key (slot.map UnitDraft.leveled) (told key calls) = some (after.map UnitDraft.leveled) := by
  induction calls generalizing slot with
  | nil =>
    cases success
    rfl
  | cons call rest ih =>
    by_cases addressed : call.unit? = some key
    · have first : told key (call :: rest) = call.leveled :: told key rest := by simp [told, addressed]
      rw [first] at kindless ⊢
      rw [slotRun?_cons_of_unit addressed] at success
      obtain ⟨unit, effect, success⟩ := Option.bind_eq_some_iff.mp success
      have same := (Call.kindless_leveled.mp (kindless _ List.mem_cons_self)).effect?_leveled effect
      rw [slotRun?_cons_of_unit (by simpa using addressed), same, Option.bind_some]
      exact ih (fun other member => kindless other (List.mem_cons_of_mem _ member)) success
    · have others : told key (call :: rest) = told key rest := by simp [told, addressed]
      rw [others] at kindless ⊢
      rw [slotRun?_cons_of_ne addressed] at success
      exact ih kindless success

/-! ## Kinds -/

def Call.kind? : Call → Option RubyUnit.Kind
  | .addUnit _ kind _ => some kind
  | _ => none

def kindsOf (key : String) (calls : List Call) : List RubyUnit.Kind :=
  (calls.filter (·.unit? == some key)).filterMap Call.kind?

theorem kindsOf_append (key : String) (first second : List Call) :
    kindsOf key (first ++ second) = kindsOf key first ++ kindsOf key second := by
  simp [kindsOf]

theorem kindsOf_cons (key : String) (call : Call) (rest : List Call) :
    kindsOf key (call :: rest) =
      (if call.unit? = some key then call.kind?.toList else []) ++ kindsOf key rest := by
  by_cases addressed : call.unit? = some key
  · cases opens : call.kind? <;> simp [kindsOf, addressed, opens]
  · simp [kindsOf, addressed]

theorem kindsOf_of_unopened {key : String} {calls : List Call}
    (unopened : ∀ call ∈ calls, call.opened? = none) : kindsOf key calls = [] := by
  refine List.filterMap_eq_nil_iff.mpr fun call member => ?_
  have opens := unopened call (List.mem_filter.mp member).1
  cases call with
  | addUnit name kind scope => cases opens
  | _ => rfl

/-- A call that opens no unit as some kind leaves the kind of a unit alone. -/
theorem Call.update?_kind {call : Call} {held unit : UnitDraft} (opens : call.kind? = none)
    (updated : call.update? held = some unit) : unit.kind = held.kind ∧ unit.holder = held.holder := by
  cases Call.updates_of_update? updated with
  | adopted _ _ | reopened _ _ _ => cases opens
  | _ => exact ⟨rfl, rfl⟩

end Draft

/-- A unit is of each kind that it was opened as, and a mere holder if it was opened as none. -/
structure UnitDraft.Kinded (kinds : List RubyUnit.Kind) (unit : UnitDraft) : Prop where
  agree : ∀ kind ∈ kinds, kind = unit.kind
  holder : unit.holder = kinds.isEmpty
  mere : kinds = [] → unit.kind = .mod

namespace Draft

private theorem kinded_of_fresh {call : Call} {unit : UnitDraft} (fresh : call.fresh? = some unit) :
    UnitDraft.Kinded call.kind?.toList unit := by
  cases Call.opens_of_fresh? fresh with
  | unit named => exact ⟨by simp [Call.kind?], rfl, by simp [Call.kind?]⟩
  | holder => exact ⟨by simp [Call.kind?], rfl, fun _ => rfl⟩

private theorem kinded_of_update {call : Call} {held unit : UnitDraft} {kinds : List RubyUnit.Kind}
    (kinded : UnitDraft.Kinded kinds held) (updated : call.update? held = some unit) :
    UnitDraft.Kinded (kinds ++ call.kind?.toList) unit := by
  cases opens : call.kind? with
  | none =>
    obtain ⟨kind, holder⟩ := Call.update?_kind opens updated
    rw [Option.toList_none, List.append_nil]
    exact ⟨fun other member => (kinded.agree other member).trans kind.symm,
      holder.trans kinded.holder, fun empty => kind.trans (kinded.mere empty)⟩
  | some kind =>
    cases Call.updates_of_update? updated with
    | adopted named holds =>
      cases opens
      have nothing : kinds = [] := List.isEmpty_iff.mp (kinded.holder.symm.trans holds)
      exact ⟨by simp [nothing], by simp, by simp⟩
    | reopened named explicit same =>
      cases opens
      refine ⟨fun other member => ?_, explicit.trans (by simp), by simp⟩
      rcases List.mem_append.mp member with old | new
      · exact kinded.agree other old
      · rw [same, List.mem_singleton.mp new]
    | _ => cases opens

/-- The kind of a unit after a run is that of all calls that open it. -/
theorem slotRun?_kinded {key : String} {calls : List Call} {kinds : List RubyUnit.Kind}
    {slot : Option UnitDraft} {unit : UnitDraft}
    (held : ∀ unit, slot = some unit → unit.Kinded kinds) (absent : slot = none → kinds = [])
    (success : slotRun? key slot calls = some (some unit)) : unit.Kinded (kinds ++ kindsOf key calls) := by
  induction calls generalizing slot kinds with
  | nil =>
    cases success
    simpa [kindsOf] using held unit rfl
  | cons call rest ih =>
    rw [kindsOf_cons, ← List.append_assoc]
    by_cases addressed : call.unit? = some key
    · rw [slotRun?_cons_of_unit addressed] at success
      obtain ⟨next, effect, success⟩ := Option.bind_eq_some_iff.mp success
      rw [if_pos addressed]
      refine ih ?_ (by simp) success
      rintro _ ⟨⟩
      cases slot with
      | none =>
        rw [absent rfl]
        exact kinded_of_fresh effect
      | some before => exact kinded_of_update (held before rfl) effect
    · rw [slotRun?_cons_of_ne addressed] at success
      rw [if_neg addressed, List.append_nil]
      exact ih held absent success

end Draft

end LiterateRuby
