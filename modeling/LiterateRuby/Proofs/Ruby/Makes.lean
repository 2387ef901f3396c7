import LiterateRuby.Proofs.Ruby.Visibility

/-! # What all events of a walk have in common

A walk opens a unit by its name and its superclass, reads the statements of its body and closes it. What holds of
these events holds of all events of the walk, however deep units are nested (`does_unit`), and so it is with the
calls that they make (`makes_unit`).
-/

namespace LiterateRuby.Ruby

open Draft (Call)

/-- Walks whose events all have a property. -/
def Does (Q : Event → Prop) (eventful : Eventful) : Prop :=
  ∀ paths events after, eventful paths = .ok (events, after) → ∀ event ∈ events, Q event

/-- Walks whose calls all have a property. -/
def Makes (P : Call → Prop) (eventful : Eventful) : Prop :=
  ∀ paths events after, eventful paths = .ok (events, after) → ∀ call ∈ callsOf events, P call

variable {scene : Scene} {P : Call → Prop} {Q : Event → Prop}

private theorem makes_iff_does {eventful : Eventful} :
    Makes P eventful ↔ Does (fun event => ∀ call ∈ event.calls, P call) eventful := by
  have each (events : List Event) :
      (∀ call ∈ callsOf events, P call) ↔ ∀ event ∈ events, ∀ call ∈ event.calls, P call := by
    simp only [callsOf, List.mem_flatMap, forall_exists_index, and_imp]
    exact ⟨fun all event listed call => all call event listed, fun all call event listed => all event listed call⟩
  simp only [Makes, Does, each]

private theorem does_nothing : Does Q (fun paths => .ok ([], paths)) := by
  rintro paths _ _ ⟨⟩
  simp

private theorem Does.andThen {first second : Eventful} (does : Does Q first) (continues : Does Q second) :
    Does Q (first.andThen second) := by
  intro paths events after success
  obtain ⟨early, middle, late, begun, ended, rfl⟩ := andThen_eq_ok success
  rw [List.forall_mem_append]
  exact ⟨does paths early middle begun, continues middle late after ended⟩

theorem does_of {event : List Call → List Event} {calls : Except WalkFault (List Call)}
    (each : ∀ made, calls = .ok made → ∀ told ∈ event made, Q told) : Does Q (Eventful.of event calls) := by
  intro paths events after success
  obtain ⟨made, makes, rfl, rfl⟩ := of_eq_ok success
  exact each made makes

theorem makes_of {event : List Call → List Event} {calls : Except WalkFault (List Call)}
    (told : ∀ made, callsOf (event made) = made)
    (each : ∀ made, calls = .ok made → ∀ call ∈ made, P call) : Makes P (Eventful.of event calls) := by
  refine makes_iff_does.mpr (does_of fun made makes event listed call member => each made makes call ?_)
  rw [← told made]
  exact List.mem_flatMap.mpr ⟨event, listed, member⟩

theorem does_body {nested : Tree → Eventful} {unit : String} {statements : List Tree}
    (inner : ∀ tree ∈ statements, isUnit tree = true → Does Q (nested tree))
    (own : ∀ tree ∈ statements, tree.isComment = false → isUnit tree = false → ∀ before prose made,
      statementCalls scene unit tree prose = .ok made → Q (.statement unit before tree made))
    (run : ProseRun) (before : List Tree) :
    Does Q (bodyEvents scene nested unit run before statements) := by
  induction statements generalizing run before with
  | nil => exact does_nothing
  | cons statement rest ih =>
    have later := ih (fun tree member => inner tree (List.mem_cons_of_mem _ member))
      fun tree member => own tree (List.mem_cons_of_mem _ member)
    unfold bodyEvents
    split
    · intro paths events after success
      obtain ⟨run, _, remains⟩ := Except.bind_eq_ok_iff.mp success
      exact later run _ paths events after remains
    · next remark =>
      split
      · next defines => exact (inner statement List.mem_cons_self defines).andThen (later {} _)
      · next other =>
        refine (does_of fun made makes event listed => ?_).andThen (later {} _)
        rw [List.mem_singleton.mp listed]
        exact own statement List.mem_cons_self (by simpa using remark) (by simpa using other) before _ made makes

theorem makes_body {nested : Tree → Eventful} {unit : String} {statements : List Tree}
    (inner : ∀ tree ∈ statements, isUnit tree = true → Makes P (nested tree))
    (own : ∀ tree ∈ statements, tree.isComment = false → isUnit tree = false → ∀ prose made,
      statementCalls scene unit tree prose = .ok made → ∀ call ∈ made, P call)
    (run : ProseRun) (before : List Tree) :
    Makes P (bodyEvents scene nested unit run before statements) :=
  makes_iff_does.mpr <| does_body (fun tree member defines => makes_iff_does.mp (inner tree member defines))
    (fun tree member remark other _ => own tree member remark other) run before

/-- A unit and all in it: the event that opens it, those of its body and the one that closes it. -/
theorem does_unit {fuel : Nat} {scope : List String} {tree : Tree}
    (opens : ∀ name superclass, nameOf scene tree = .ok name →
      superclassCalls scene (Draft.keyOf name scope) tree = .ok superclass →
      Q (.opening (Draft.keyOf name scope) (.addUnit name (kindOf tree) scope :: superclass)))
    (body : ∀ path unit, Does Q (bodyEvents scene (unitEvents scene fuel path) unit {} [] (statementsOf tree)))
    (closes : ∀ unit, Q (.call (.markNamespaceOnly unit))) : Does Q (unitEvents scene (fuel + 1) scope tree) := by
  intro paths events after success
  obtain ⟨less, name, superclass, inside, named, headed, walked, enough, rfl⟩ := unitEvents_eq_ok success
  obtain rfl : fuel = less := Nat.succ.inj enough
  have closing : Does Q (Eventful.of (·.map .call) (.ok (closingCalls (Draft.keyOf name scope) tree))) := by
    refine does_of ?_
    rintro made ⟨⟩ event listed
    obtain ⟨call, member, rfl⟩ := List.mem_map.mp listed
    rw [closingCalls_mark _ tree call member]
    exact closes _
  rw [List.forall_mem_cons]
  exact ⟨opens name superclass named headed, ((body _ _).andThen closing) _ inside after walked⟩

/-- A unit and all in it: the call that opens it, those of its header, those of its body and the one that
closes it. -/
theorem makes_unit {fuel : Nat} {scope : List String} {tree : Tree}
    (opens : ∀ name, nameOf scene tree = .ok name → P (.addUnit name (kindOf tree) scope))
    (header : ∀ unit made, superclassCalls scene unit tree = .ok made → ∀ call ∈ made, P call)
    (body : ∀ path unit, Makes P (bodyEvents scene (unitEvents scene fuel path) unit {} [] (statementsOf tree)))
    (closes : ∀ unit, P (.markNamespaceOnly unit)) : Makes P (unitEvents scene (fuel + 1) scope tree) := by
  refine makes_iff_does.mpr (does_unit (fun name superclass named headed => ?_)
    (fun path unit => makes_iff_does.mp (body path unit)) fun unit => ?_)
  · exact List.forall_mem_cons.mpr ⟨opens name named, header _ superclass headed⟩
  · exact List.forall_mem_singleton.mpr (closes unit)

theorem does_events {trees : List Tree} (each : ∀ tree ∈ trees, Does Q (topEvents scene tree)) :
    Does Q (eventsOf scene trees) := by
  induction trees with
  | nil => exact does_nothing
  | cons tree rest ih =>
    exact (each tree List.mem_cons_self).andThen (ih fun other member => each other (List.mem_cons_of_mem _ member))

theorem makes_events {trees : List Tree} (each : ∀ tree ∈ trees, Makes P (topEvents scene tree)) :
    Makes P (eventsOf scene trees) :=
  makes_iff_does.mpr (does_events fun tree member => makes_iff_does.mp (each tree member))

end LiterateRuby.Ruby
