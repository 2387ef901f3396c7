import LiterateRuby.Proofs.Draft.Collected

/-! # Runs of calls that are not refused

A run performs calls one after the other, none of them refused. What a run makes of one unit depends
only on the calls that address this unit (`Runs.get?`), and a sequence of calls can be run exactly if
each unit takes the calls that address it (`exists_runs_iff`).
-/

namespace LiterateRuby.Draft

/-- Calls lead from one draft to another, and none of them is refused. -/
def Runs (draft : Draft) : List Call → Draft → Prop
  | [], next => next = draft
  | call :: rest, next =>
    ∃ middle reply, (draft.perform call).result = .ok (middle, reply) ∧ middle.Runs rest next

@[simp] theorem runs_nil {draft next : Draft} : draft.Runs [] next ↔ next = draft := Iff.rfl

theorem runs_cons {draft next : Draft} {call : Call} {rest : List Call} :
    draft.Runs (call :: rest) next ↔
      ∃ middle reply, (draft.perform call).result = .ok (middle, reply) ∧ middle.Runs rest next := Iff.rfl

theorem runs_singleton {draft next : Draft} {call : Call} :
    draft.Runs [call] next ↔ ∃ reply, (draft.perform call).result = .ok (next, reply) := by
  rw [runs_cons]
  constructor
  · rintro ⟨middle, reply, success, rfl⟩
    exact ⟨reply, success⟩
  · rintro ⟨reply, success⟩
    exact ⟨next, reply, success, rfl⟩

/-- Runs compose at any cut. -/
theorem runs_append {draft next : Draft} {first second : List Call} :
    draft.Runs (first ++ second) next ↔ ∃ middle, draft.Runs first middle ∧ middle.Runs second next := by
  induction first generalizing draft with
  | nil => simp
  | cons call rest ih =>
    simp only [List.cons_append, runs_cons, ih]
    constructor
    · rintro ⟨middle, reply, success, last, run, tail⟩
      exact ⟨last, ⟨middle, reply, success, run⟩, tail⟩
    · rintro ⟨last, ⟨middle, reply, success, run⟩, tail⟩
      exact ⟨middle, reply, success, last, run, tail⟩

/-- A run is a sequence of calls that are all accepted. -/
theorem Runs.afterAll {draft next : Draft} {calls : List Call} (run : draft.Runs calls next) :
    draft.afterAll calls = next ∧ draft.accepted calls = calls := by
  induction calls generalizing draft with
  | nil => exact ⟨run.symm, rfl⟩
  | cons call rest ih =>
    obtain ⟨middle, reply, success, tail⟩ := run
    have after : draft.after call = middle := by simp only [Draft.after, success]
    have accepts : draft.accepts call = true := by simp [Draft.accepts, success, Except.isOk, Except.toBool]
    obtain ⟨reached, all⟩ := ih tail
    constructor
    · change (draft.after call).afterAll rest = next
      rw [after, reached]
    · rw [accepted, if_pos accepts, after, all]

theorem Runs.holds {history : List Call} {draft next : Draft} {calls : List Call}
    (run : draft.Runs calls next) (holds : Holds history draft)
    (proper : ∀ call ∈ calls, call.Proper) : Holds (history ++ calls) next := by
  obtain ⟨reached, all⟩ := run.afterAll
  have result := holds.run calls proper
  rwa [all, reached] at result

/-- What a unit becomes by the calls that address it, if it takes them all. -/
def slotRun? (key : String) (slot : Option UnitDraft) : List Call → Option (Option UnitDraft)
  | [] => some slot
  | call :: rest =>
    if call.unit? = some key then
      (call.effect? slot).bind fun unit => slotRun? key (some unit) rest
    else slotRun? key slot rest

@[simp] theorem slotRun?_nil (key : String) (slot : Option UnitDraft) :
    slotRun? key slot [] = some slot := rfl

theorem slotRun?_cons_of_unit {call : Call} {key : String} (addressed : call.unit? = some key)
    (slot : Option UnitDraft) (rest : List Call) :
    slotRun? key slot (call :: rest) =
      (call.effect? slot).bind fun unit => slotRun? key (some unit) rest := by
  rw [slotRun?, if_pos addressed]

theorem slotRun?_cons_of_ne {call : Call} {key : String} (elsewhere : call.unit? ≠ some key)
    (slot : Option UnitDraft) (rest : List Call) :
    slotRun? key slot (call :: rest) = slotRun? key slot rest := by
  rw [slotRun?, if_neg elsewhere]

theorem slotRun?_append (key : String) (slot : Option UnitDraft) (first second : List Call) :
    slotRun? key slot (first ++ second) =
      (slotRun? key slot first).bind fun middle => slotRun? key middle second := by
  induction first generalizing slot with
  | nil => rfl
  | cons call rest ih =>
    by_cases addressed : call.unit? = some key
    · rw [List.cons_append, slotRun?_cons_of_unit addressed, slotRun?_cons_of_unit addressed,
        Option.bind_assoc]
      simp only [ih]
    · rw [List.cons_append, slotRun?_cons_of_ne addressed, slotRun?_cons_of_ne addressed, ih]

/-- Calls that address other units leave a unit as it is. -/
theorem slotRun?_of_elsewhere {key : String} {calls : List Call}
    (elsewhere : ∀ call ∈ calls, call.unit? ≠ some key) (slot : Option UnitDraft) :
    slotRun? key slot calls = some slot := by
  induction calls with
  | nil => rfl
  | cons call rest ih =>
    rw [slotRun?_cons_of_ne (elsewhere call List.mem_cons_self)]
    exact ih fun other member => elsewhere other (List.mem_cons_of_mem _ member)

/-- Once a call addresses a unit, it is there. -/
theorem slotRun?_isSome {key : String} {calls : List Call} {slot after : Option UnitDraft}
    (known : slot.isSome = true ∨ ∃ call ∈ calls, call.unit? = some key)
    (run : slotRun? key slot calls = some after) : after.isSome = true := by
  induction calls generalizing slot with
  | nil =>
    cases run
    simpa using known
  | cons call rest ih =>
    by_cases addressed : call.unit? = some key
    · rw [slotRun?_cons_of_unit addressed] at run
      obtain ⟨unit, _, run⟩ := Option.bind_eq_some_iff.mp run
      exact ih (.inl rfl) run
    · rw [slotRun?_cons_of_ne addressed] at run
      refine ih (known.imp_right ?_) run
      rintro ⟨other, member, target⟩
      rcases List.mem_cons.mp member with rfl | later
      · exact absurd target addressed
      · exact ⟨other, later, target⟩

/-- What the calls to a unit give it when it is opened and keep when it changes holds of it after a run. -/
theorem slotRun?_preserves {P : UnitDraft → Prop} {key : String} {calls : List Call} {slot : Option UnitDraft}
    {unit : UnitDraft} (held : ∀ unit, slot = some unit → P unit)
    (fresh : ∀ call ∈ calls, call.unit? = some key → ∀ made, call.fresh? = some made → P made)
    (updated : ∀ call ∈ calls, call.unit? = some key → ∀ old made, P old → call.update? old = some made → P made)
    (run : slotRun? key slot calls = some (some unit)) : P unit := by
  induction calls generalizing slot with
  | nil =>
    cases run
    exact held unit rfl
  | cons call rest ih =>
    have freshLater := fun other member => fresh other (List.mem_cons_of_mem call member)
    have updatedLater := fun other member => updated other (List.mem_cons_of_mem call member)
    by_cases addressed : call.unit? = some key
    · rw [slotRun?_cons_of_unit addressed] at run
      obtain ⟨next, effect, run⟩ := Option.bind_eq_some_iff.mp run
      refine ih ?_ freshLater updatedLater run
      rintro _ ⟨⟩
      cases slot with
      | none => exact fresh call List.mem_cons_self addressed next effect
      | some old => exact updated call List.mem_cons_self addressed old next (held old rfl) effect
    · rw [slotRun?_cons_of_ne addressed] at run
      exact ih held freshLater updatedLater run

theorem get?_of_perform {draft next : Draft} {call : Call} {reply : Reply} {key : String}
    (success : (draft.perform call).result = .ok (next, reply)) (elsewhere : call.unit? ≠ some key) :
    next.units.get? key = draft.units.get? key := by
  cases addressed : call.unit? with
  | none => rw [(perform_document addressed success).1]
  | some other =>
    obtain ⟨unit, _, touched⟩ := perform_unit addressed success
    refine touched.get?_of_ne ?_
    rintro rfl
    exact elsewhere addressed

/-- What a run makes of a unit is told by the calls that address it. -/
theorem Runs.get? {draft next : Draft} {calls : List Call} (run : draft.Runs calls next)
    (key : String) : slotRun? key (draft.units.get? key) calls = some (next.units.get? key) := by
  induction calls generalizing draft with
  | nil =>
    cases run
    rfl
  | cons call rest ih =>
    obtain ⟨middle, reply, success, tail⟩ := run
    by_cases addressed : call.unit? = some key
    · obtain ⟨unit, effect, touched⟩ := perform_unit addressed success
      rw [slotRun?_cons_of_unit addressed, effect, Option.bind_some, ← touched.get?_self]
      exact ih tail
    · rw [slotRun?_cons_of_ne addressed, ← get?_of_perform success addressed]
      exact ih tail

/-- Calls that address no unit are refused only for lack of metadata. -/
def Call.Given : Call → Prop
  | .setMetadata metadata => metadata.isSome = true
  | _ => True

/-- Calls can be run exactly if each unit takes the calls that address it. -/
theorem exists_runs_iff {draft : Draft} {calls : List Call} (given : ∀ call ∈ calls, call.Given) :
    (∃ next, draft.Runs calls next) ↔
      ∀ key, (slotRun? key (draft.units.get? key) calls).isSome = true := by
  constructor
  · rintro ⟨next, run⟩ key
    rw [run.get? key]
    rfl
  · intro takes
    induction calls generalizing draft with
    | nil => exact ⟨draft, rfl⟩
    | cons call rest ih =>
      have performs : ∃ middle reply, (draft.perform call).result = .ok (middle, reply) := by
        cases addressed : call.unit? with
        | some key =>
          rw [exists_perform_iff addressed]
          have takesKey := takes key
          rw [slotRun?_cons_of_unit addressed] at takesKey
          exact Option.isSome_iff_exists.mp (Option.isSome_of_isSome_bind takesKey)
        | none =>
          cases call with
          | addRequire name => exact ⟨_, _, rfl⟩
          | setMetadata metadata =>
            obtain ⟨metadata, rfl⟩ := Option.isSome_iff_exists.mp (given _ List.mem_cons_self)
            exact ⟨_, _, rfl⟩
          | _ => cases addressed
      obtain ⟨middle, reply, success⟩ := performs
      have later : ∃ next, middle.Runs rest next := by
        refine ih (fun other member => given other (List.mem_cons_of_mem _ member)) fun key => ?_
        have takesKey := takes key
        by_cases addressed : call.unit? = some key
        · obtain ⟨unit, effect, touched⟩ := perform_unit addressed success
          rwa [slotRun?_cons_of_unit addressed, effect, Option.bind_some, ← touched.get?_self] at takesKey
        · rwa [slotRun?_cons_of_ne addressed, ← get?_of_perform success addressed] at takesKey
      obtain ⟨next, tail⟩ := later
      exact ⟨next, middle, reply, success, tail⟩

end LiterateRuby.Draft
