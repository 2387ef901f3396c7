import LiterateRuby.Proofs.Draft.Run

/-! # Changes of a draft that are runs of calls

A reader changes a draft by calls only, and which calls it makes depends on what it reads, never on the
draft. `Emits` says so of a change: it succeeds exactly if its calls can be made out and run, and it leads
where they lead.
-/

namespace LiterateRuby.Draft

variable {ε : Type}

/-- A change of a draft is a run of the given calls, or fails as they do. -/
def Emits (change : Draft → Except ε Draft) (calls : Except ε (List Call)) : Prop :=
  ∀ draft next, change draft = .ok next ↔ ∃ emitted, calls = .ok emitted ∧ draft.Runs emitted next

theorem emits_ok_iff {change : Draft → Except ε Draft} {calls : List Call} :
    Emits change (.ok calls) ↔ ∀ draft next, change draft = .ok next ↔ draft.Runs calls next := by
  unfold Emits
  simp

theorem emits_nothing : Emits (.ok : Draft → Except ε Draft) (.ok []) := by
  rw [emits_ok_iff]
  intro draft next
  simp [eq_comm]

theorem emits_error (fault other : ε) : Emits (fun _ => .error fault) (.error other) := by
  intro draft next
  simp

/-- Changes made one after the other make their calls one after the other. -/
theorem Emits.bind {first second : Draft → Except ε Draft} {early late : Except ε (List Call)}
    (emits : Emits first early) (continues : Emits second late) :
    Emits (fun draft => first draft >>= second) (do return (← early) ++ (← late)) := by
  intro draft next
  rw [Except.bind_eq_ok_iff]
  constructor
  · rintro ⟨middle, begun, ended⟩
    obtain ⟨calls, rfl, run⟩ := (emits draft middle).mp begun
    obtain ⟨more, rfl, tail⟩ := (continues middle next).mp ended
    exact ⟨calls ++ more, rfl, runs_append.mpr ⟨middle, run, tail⟩⟩
  · rintro ⟨emitted, success, run⟩
    obtain ⟨calls, rfl, remains⟩ := Except.bind_eq_ok_iff.mp success
    obtain ⟨more, rfl, same⟩ := Except.bind_eq_ok_iff.mp remains
    cases same
    obtain ⟨middle, run, tail⟩ := runs_append.mp run
    exact ⟨middle, (emits draft middle).mpr ⟨calls, rfl, run⟩,
      (continues middle next).mpr ⟨more, rfl, tail⟩⟩

/-- The same for changes whose calls are known to be made. -/
theorem Emits.andThen {first second : Draft → Except ε Draft} {early late : List Call}
    (emits : Emits first (.ok early)) (continues : Emits second (.ok late)) :
    Emits (fun draft => first draft >>= second) (.ok (early ++ late)) :=
  emits.bind continues

/-- A change that depends on something read beforehand. -/
theorem emits_given {α : Type} (first : Except ε α) {change : α → Draft → Except ε Draft}
    {calls : α → Except ε (List Call)} (each : ∀ value, Emits (change value) (calls value)) :
    Emits (fun draft => first >>= fun value => change value draft) (first >>= calls) := by
  cases first with
  | error fault => exact emits_error fault fault
  | ok value => exact each value

/-- A change that a call makes with no answer but that it is done. -/
theorem emits_call {describe : Refusal → ε} {made : Call} {change : Draft → Except Refusal Draft}
    (performs : ∀ draft : Draft, draft.perform made = do return (← change draft, .done)) :
    Emits (fun draft => (change draft).mapError describe) (.ok [made]) := by
  rw [emits_ok_iff]
  intro draft next
  rw [Except.mapError_eq_ok_iff, runs_singleton, performs draft]
  constructor
  · intro success
    exact ⟨.done, by simp [success]⟩
  · rintro ⟨reply, success⟩
    exact result_done success

/-- A change of a draft, after which something is made of the draft. -/
theorem Emits.place_eq_ok_iff {α : Type} {change : Draft → Except ε Draft}
    {calls : Except ε (List Call)} (emits : Emits change calls) (draft : Draft) (place : Draft → α)
    (next : α) :
    (change draft >>= fun changed => .ok (place changed)) = .ok next ↔
      ∃ emitted changed, calls = .ok emitted ∧ draft.Runs emitted changed ∧ next = place changed := by
  rw [Except.bind_eq_ok_iff]
  constructor
  · rintro ⟨changed, success, same⟩
    cases same
    obtain ⟨emitted, made, run⟩ := (emits draft changed).mp success
    exact ⟨emitted, changed, made, run, rfl⟩
  · rintro ⟨emitted, changed, made, run, rfl⟩
    exact ⟨changed, (emits draft changed).mpr ⟨emitted, made, run⟩, rfl⟩

/-- A change for each item in turn. -/
theorem emits_foldlM {α : Type} {step : Draft → α → Except ε Draft} {calls : α → Except ε (List Call)}
    (each : ∀ item, Emits (fun draft => step draft item) (calls item)) (items : List α) :
    Emits (fun draft => items.foldlM step draft) (do return (← items.mapM calls).flatten) := by
  induction items with
  | nil => exact emits_nothing
  | cons item rest ih =>
    simp only [List.foldlM_cons, List.mapM_cons]
    intro draft next
    rw [((each item).bind ih) draft next]
    cases calls item with
    | error fault => rfl
    | ok first => cases rest.mapM calls <;> rfl

/-- A call for each item in turn. -/
theorem emits_forEach {α : Type} (describe : Refusal → ε) (made : α → Call)
    {change : Draft → α → Except Refusal Draft}
    (performs : ∀ item, ∀ draft : Draft,
      draft.perform (made item) = do return (← change draft item, .done)) (items : List α) :
    Emits (fun draft => (items.foldlM change draft).mapError describe) (.ok (items.map made)) := by
  induction items with
  | nil => exact emits_nothing
  | cons item rest ih =>
    intro draft next
    have first : Emits (fun draft => (change draft item).mapError describe) (.ok [made item]) :=
      emits_call (performs item)
    have steps := first.andThen ih draft next
    dsimp only at steps
    simp only [List.foldlM_cons]
    cases ran : change draft item with
    | error refusal =>
      rw [ran] at steps
      exact steps
    | ok middle =>
      rw [ran] at steps
      exact steps

theorem emits_addRequire (name : String) :
    Emits (fun draft => (.ok (draft.addRequire name) : Except ε Draft)) (.ok [.addRequire name]) := by
  rw [emits_ok_iff]
  intro draft next
  rw [runs_singleton]
  constructor
  · intro success
    cases success
    exact ⟨.done, rfl⟩
  · rintro ⟨reply, success⟩
    cases success
    rfl

theorem emits_setSuperclass (describe : Refusal → ε) (unit superclass : String) :
    Emits (fun draft => ((draft.setSuperclass unit superclass).mapError describe).result)
      (.ok [.setSuperclass unit superclass]) := by
  rw [emits_ok_iff]
  intro draft next
  rw [Outcome.result_mapError, Except.mapError_eq_ok_iff, runs_singleton]
  constructor
  · intro success
    exact ⟨.done, by simp [perform, success]⟩
  · rintro ⟨reply, success⟩
    obtain ⟨changed, ran, same⟩ := Outcome.bind_result_eq_ok_iff.mp success
    cases same
    exact ran

theorem emits_setMethodVisibility (describe : Refusal → ε) (unit name : String)
    (visibility : Visibility) (binding : Binding) :
    Emits (fun draft => (draft.setMethodVisibility unit name visibility binding).mapError describe >>=
      fun changed => .ok changed.1) (.ok [.setMethodVisibility unit name visibility binding]) := by
  rw [emits_ok_iff]
  intro draft next
  rw [Except.bind_eq_ok_iff, runs_singleton]
  constructor
  · rintro ⟨⟨changed, found⟩, success, same⟩
    cases same
    exact ⟨.found found, by simp [perform, Except.mapError_eq_ok_iff.mp success]⟩
  · rintro ⟨reply, success⟩
    obtain ⟨⟨changed, found⟩, ran, same⟩ := Outcome.bind_result_eq_ok_iff.mp success
    cases same
    exact ⟨(next, found), Except.mapError_eq_ok_iff.mpr ran, rfl⟩

/-- Opening a unit, with what is done under the key that it gets. -/
theorem emits_addUnit (describe : Refusal → ε) (name : String) (kind : RubyUnit.Kind)
    (scope : List String) (further : String → Draft → Except ε Draft) {late : Except ε (List Call)}
    (continues : Emits (further (keyOf name scope)) late) :
    Emits (fun draft => (draft.addUnit name kind scope).mapError describe >>= fun opened =>
      further opened.2 opened.1) (do return .addUnit name kind scope :: (← late)) := by
  intro draft next
  rw [Except.bind_eq_ok_iff]
  constructor
  · rintro ⟨⟨middle, key⟩, opened, success⟩
    have opened := Except.mapError_eq_ok_iff.mp opened
    obtain ⟨rfl, _⟩ := addUnit_touches opened
    obtain ⟨calls, rfl, run⟩ := (continues middle next).mp success
    exact ⟨_, rfl, middle, .key (keyOf name scope), by simp [perform, opened], run⟩
  · rintro ⟨_, made, run⟩
    obtain ⟨calls, rfl, same⟩ := Except.bind_eq_ok_iff.mp made
    cases same
    obtain ⟨middle, reply, success, tail⟩ := run
    obtain ⟨⟨changed, key⟩, opened, same⟩ := Outcome.bind_result_eq_ok_iff.mp success
    cases same
    have opened : draft.addUnit name kind scope = .ok (middle, key) := opened
    obtain ⟨rfl, _⟩ := addUnit_touches opened
    exact ⟨(middle, keyOf name scope), Except.mapError_eq_ok_iff.mpr opened,
      (continues middle next).mpr ⟨calls, rfl, tail⟩⟩

end LiterateRuby.Draft
