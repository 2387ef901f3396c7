import LiterateRuby.Warning
import Mathlib.Data.List.Forall2

/-! # Results of outcomes

What an `Outcome` warns of never decides its result, so the result of a computation is computed from
the results of its parts. A successful result is taken apart one part at a time: what each part gave
is a value that the next part went on with. `Except.Meets` speaks of both ends of a computation: of what
it gives, and of the faults that it can end in.
-/

namespace LiterateRuby

namespace Except

theorem bind_eq_ok_iff {first : Except ε α} {next : α → Except ε β} {value : β} :
    first >>= next = .ok value ↔ ∃ middle, first = .ok middle ∧ next middle = .ok value := by
  constructor
  · intro success
    cases first with
    | error fault => cases success
    | ok middle => exact ⟨middle, rfl, success⟩
  · rintro ⟨middle, rfl, success⟩
    exact success

theorem exists_of_isOk {result : Except ε α} (success : result.isOk = true) :
    ∃ value, result = .ok value := by
  cases result with
  | error fault => cases success
  | ok value => exact ⟨value, rfl⟩

theorem eq_error_of_isFault [DecidableEq ε] {result : Except ε α} {fault : ε}
    (fails : (match result with
      | .error other => decide (other = fault)
      | .ok _ => false) = true) : result = .error fault := by
  cases result with
  | error other => rw [of_decide_eq_true fails]
  | ok value => cases fails

/-- A computation that gives something seen succeeds. -/
theorem exists_of_toOption {result : Except ε α} {view : α → β} {seen : β}
    (success : result.toOption.map view = some seen) : ∃ value, result = .ok value ∧ view value = seen := by
  cases result with
  | error fault => cases success
  | ok value => exact ⟨value, rfl, Option.some.inj success⟩

theorem mapError_eq_ok_iff {result : Except ε α} {describe : ε → δ} {value : α} :
    result.mapError describe = .ok value ↔ result = .ok value := by
  cases result <;> simp [Except.mapError]

@[simp] theorem mapError_ok (value : α) (describe : ε → δ) :
    (Except.ok value : Except ε α).mapError describe = .ok value := rfl

@[simp] theorem mapError_error (fault : ε) (describe : ε → δ) :
    (Except.error fault : Except ε α).mapError describe = .error (describe fault) := rfl

@[simp] theorem ok_bind (value : α) (next : α → Except ε β) :
    (Except.ok value : Except ε α) >>= next = next value := rfl

@[simp] theorem error_bind (fault : ε) (next : α → Except ε β) :
    (Except.error fault : Except ε α) >>= next = .error fault := rfl

/-- Items are mapped with success if each one is. -/
theorem mapM_eq_ok_iff {α β : Type} {change : α → Except ε β} {items : List α} {values : List β} :
    items.mapM change = .ok values ↔
      List.Forall₂ (fun item value => change item = .ok value) items values := by
  induction items generalizing values with
  | nil =>
    rw [List.mapM_nil, List.forall₂_nil_left_iff]
    exact ⟨fun success => by cases success; rfl, fun empty => by rw [empty]; rfl⟩
  | cons item rest ih =>
    rw [List.mapM_cons, List.forall₂_cons_left_iff]
    simp only [bind_eq_ok_iff, ih, pure, Except.pure, Except.ok.injEq]
    constructor
    · rintro ⟨first, changed, others, all, same⟩
      exact ⟨first, others, changed, all, same.symm⟩
    · rintro ⟨first, others, changed, all, same⟩
      exact ⟨first, changed, others, all, same.symm⟩

theorem exists_of_mem_mapM {α β : Type} {change : α → Except ε β} {items : List α} {values : List β}
    {value : β} (success : items.mapM change = .ok values) (member : value ∈ values) :
    ∃ item ∈ items, change item = .ok value := by
  induction mapM_eq_ok_iff.mp success with
  | nil => cases member
  | @cons item first rest others changed all ih =>
    rcases List.mem_cons.mp member with rfl | later
    · exact ⟨item, List.mem_cons_self, changed⟩
    · obtain ⟨other, inside, same⟩ := ih (mapM_eq_ok_iff.mpr all) later
      exact ⟨other, List.mem_cons_of_mem _ inside, same⟩

theorem exists_of_mapM {α β : Type} {change : α → Except ε β} {items : List α} {values : List β} {item : α}
    (success : items.mapM change = .ok values) (member : item ∈ items) : ∃ value, change item = .ok value := by
  induction mapM_eq_ok_iff.mp success with
  | nil => cases member
  | @cons first value rest others changed all ih =>
    rcases List.mem_cons.mp member with rfl | later
    · exact ⟨value, changed⟩
    · exact ih (mapM_eq_ok_iff.mpr all) later

theorem exists_mapM {α β : Type} {change : α → Except ε β} {items : List α}
    (each : ∀ item ∈ items, ∃ value, change item = .ok value) : ∃ values, items.mapM change = .ok values := by
  induction items with
  | nil => exact ⟨[], rfl⟩
  | cons item rest ih =>
    obtain ⟨value, success⟩ := each item List.mem_cons_self
    obtain ⟨values, all⟩ := ih fun other member => each other (List.mem_cons_of_mem _ member)
    exact ⟨value :: values, by rw [List.mapM_cons, success, all]; rfl⟩

/-- A result that is good if there is one, and otherwise an expected fault. -/
def Meets (good : α → Prop) (expected : ε → Prop) : Except ε α → Prop
  | .ok value => good value
  | .error fault => expected fault

namespace Meets

variable {good : α → Prop} {expected : ε → Prop} {result : Except ε α}

theorem bind {next : α → Except ε β} {fine : β → Prop} (meets : Meets good expected result)
    (continues : ∀ value, good value → Meets fine expected (next value)) :
    Meets fine expected (result >>= next) := by
  cases result with
  | error fault => exact meets
  | ok value => exact continues value meets

theorem mapError {describe : ε → δ} {described : δ → Prop} (meets : Meets good expected result)
    (covers : ∀ fault, expected fault → described (describe fault)) :
    Meets good described (result.mapError describe) := by
  cases result with
  | error fault => exact covers fault meets
  | ok value => exact meets

theorem mono {fine : α → Prop} (meets : Meets good expected result)
    (weaker : ∀ value, good value → fine value) : Meets fine expected result := by
  cases result with
  | error fault => exact meets
  | ok value => exact weaker value meets

theorem foldlM {σ β : Type} {step : σ → β → Except ε σ} {good : σ → Prop} {items : List β}
    (each : ∀ item ∈ items, ∀ state, good state → Meets good expected (step state item)) {state : σ}
    (begins : good state) : Meets good expected (items.foldlM step state) := by
  induction items generalizing state with
  | nil => exact begins
  | cons item rest ih =>
    exact (each item List.mem_cons_self state begins).bind fun middle holds =>
      ih (fun other member => each other (List.mem_cons_of_mem _ member)) holds

end Meets

end Except

namespace Outcome

@[simp] theorem result_pure (value : α) : (pure value : Outcome ε α).result = .ok value := rfl

@[simp] theorem result_ofExcept (result : Except ε α) : (ofExcept result).result = result := rfl

@[simp] theorem result_liftM (result : Except ε α) :
    (liftM result : Outcome ε α).result = result := rfl

@[simp] theorem result_monadLift (result : Except ε α) :
    (monadLift result : Outcome ε α).result = result := rfl

@[simp] theorem result_warn (warning : Warning) : (warn warning : Outcome ε PUnit).result = .ok ⟨⟩ := rfl

@[simp] theorem result_fail (fault : ε) : (fail fault : Outcome ε α).result = .error fault := rfl

@[simp] theorem result_mapError (describe : ε → δ) (outcome : Outcome ε α) :
    (outcome.mapError describe).result = outcome.result.mapError describe := rfl

/-- Warnings have no part in how an outcome goes on. -/
@[simp] theorem result_bind (first : Outcome ε α) (next : α → Outcome ε β) :
    (first >>= next).result = first.result >>= fun value => (next value).result := by
  obtain ⟨warnings, result⟩ := first
  cases result <;> rfl

@[simp] theorem result_ite (condition : Prop) [Decidable condition] (first second : Outcome ε α) :
    (if condition then first else second).result =
      if condition then first.result else second.result := by
  split <;> rfl

theorem result_foldlM {σ α : Type} (step : σ → α → Outcome ε σ) (items : List α) (state : σ) :
    (items.foldlM step state).result = items.foldlM (fun state item => (step state item).result) state := by
  induction items generalizing state with
  | nil => rfl
  | cons item rest ih =>
    simp only [List.foldlM_cons, result_bind]
    exact congrArg _ (funext ih)

/-- Warnings are kept in order, however computations are put together. -/
theorem lawfulMonad (ε : Type) : LawfulMonad (Outcome ε) := by
  refine LawfulMonad.mk' _ ?_ ?_ ?_
  · rintro α ⟨warnings, result⟩
    cases result <;> simp [Functor.map, andThen]
  · intro α β value next
    exact pure_andThen value next
  · rintro α β γ ⟨warnings, result⟩ second third
    cases result with
    | error fault => rfl
    | ok value =>
      simp only [bind, andThen]
      cases (second value).result <;> simp [List.append_assoc]

theorem result_mapM {ε α β : Type} (change : α → Outcome ε β) (items : List α) :
    (items.mapM change).result = items.mapM fun item => (change item).result := by
  have := lawfulMonad ε
  induction items with
  | nil => rfl
  | cons item rest ih =>
    simp only [List.mapM_cons, result_bind, ih, result_pure]
    rfl

theorem bind_result_eq_ok_iff {first : Outcome ε α} {next : α → Outcome ε β} {value : β} :
    (first >>= next).result = .ok value ↔
      ∃ middle, first.result = .ok middle ∧ (next middle).result = .ok value := by
  rw [result_bind, Except.bind_eq_ok_iff]

end Outcome

end LiterateRuby
