import LiterateRuby.Proofs.Entries
import LiterateRuby.Proofs.Ruby.Event
import LiterateRuby.Proofs.Ruby.Keyword

/-! # The active visibility in the bodies of a unit

Each unit has one active visibility, and all its bodies share it: a body that reopens a unit starts with
the visibility that the bodies before it left. `walkInto_records` says with which visibility a definition
is recorded: that of the last bare keyword before it in its body, else that of the last one in the earlier
bodies of its unit, else public. Units nested in a body have other names than its unit
(`unitEvents_deeper`), so what is read between two statements of a body does not bear on its unit.
-/

namespace LiterateRuby.Ruby

open Draft (Call methodsAfter)

/-- Whether a statement is neither a comment nor a nested unit. -/
def isPlain (statement : Tree) : Bool := !statement.isComment && !isUnit statement

def isDefinition (statement : Tree) : Bool :=
  statement.kind == "method" || statement.kind == "singleton_method"

/-- The statement that an event reads in a unit. -/
def Event.stated? (unit : String) : Event → Option Tree
  | .statement other _ tree _ => if other = unit then some tree else none
  | _ => none

def stated (unit : String) (events : List Event) : List Tree := events.filterMap (Event.stated? unit)

@[simp] theorem stated_nil (unit : String) : stated unit [] = [] := rfl

@[simp] theorem stated_append (unit : String) (first second : List Event) :
    stated unit (first ++ second) = stated unit first ++ stated unit second := List.filterMap_append

/-- An event is told if its calls are those of what it reads. -/
def Event.Told (scene : Scene) : Event → Prop
  | .call made => made.Quiet
  | .opening _ calls => ∀ call ∈ calls, call.Quiet
  | .statement unit _ tree calls => ∃ prose, statementCalls scene unit tree prose = .ok calls

/-- What an event does to the active visibility of a unit. -/
theorem Event.Told.visibility {scene : Scene} {event : Event} (told : event.Told scene) (key : String)
    (state : MethodState) :
    (methodsAfter key state event.calls).visibility =
      (lastKeyword? scene (stated key [event])).getD state.visibility := by
  cases event with
  | call made =>
    have quiet : ∀ call ∈ [made], call.Quiet := by
      intro call member
      rw [List.mem_singleton.mp member]
      exact told
    rw [Event.calls, Draft.methodsAfter_of_quiet fun call member _ => quiet call member]
    rfl
  | opening unit calls =>
    rw [Event.calls, Draft.methodsAfter_of_quiet fun call member _ => told call member]
    rfl
  | statement unit before statement calls =>
    obtain ⟨prose, made⟩ := told
    by_cases same : unit = key
    · subst same
      have alone : stated unit [.statement unit before statement calls] = [statement] := by
        simp [stated, Event.stated?]
      rw [alone, lastKeyword?_singleton]
      rcases statementCalls_cases scene unit made with ⟨visibility, keyword, rfl⟩ | ⟨silent, minor⟩
      · rw [keyword]
        simp [Event.calls, methodsAfter, Call.unit?, Call.onMethods]
      · rw [silent]
        exact Draft.methodsAfter_of_steady (fun call member => (minor call member).2) state
    · have absent : stated key [.statement unit before statement calls] = [] := by
        simp [stated, Event.stated?, same]
      have elsewhere : ∀ call ∈ calls, call.unit? ≠ some key := by
        intro call member addressed
        rcases statementCalls_cases scene unit made with ⟨visibility, _, rfl⟩ | ⟨_, minor⟩
        · rw [List.mem_singleton.mp member] at addressed
          exact same (Option.some.inj addressed)
        · exact same ((minor call member).1 key addressed).symm
      rw [absent, Event.calls, Draft.methodsAfter_of_elsewhere elsewhere]
      rfl

/-- The active visibility of a unit after events is that of the last bare keyword among the statements
that they read in the unit. -/
theorem visibility_after {scene : Scene} {events : List Event}
    (told : ∀ event ∈ events, event.Told scene) (key : String) (state : MethodState) :
    (methodsAfter key state (callsOf events)).visibility =
      (lastKeyword? scene (stated key events)).getD state.visibility := by
  induction events generalizing state with
  | nil => rfl
  | cons event rest ih =>
    have first := (told event List.mem_cons_self).visibility key state
    have later := ih fun other member => told other (List.mem_cons_of_mem _ member)
    have joined : lastKeyword? scene (stated key (event :: rest)) =
        (lastKeyword? scene (stated key rest)).or (lastKeyword? scene (stated key [event])) := by
      rw [← List.singleton_append, stated_append, lastKeyword?_append]
    rw [callsOf_cons, Draft.methodsAfter_append, later, first, joined]
    cases lastKeyword? scene (stated key rest) <;> rfl

def Event.unit? : Event → Option String
  | .call _ => none
  | .opening unit _ => some unit
  | .statement unit _ _ _ => some unit

/-- Each unit has a path, and the path spells its name. -/
def Paths.Sound (paths : Paths) : Prop :=
  ∀ unit path, paths.get? unit = some path → path ≠ [] ∧ Text.joinScope path = unit

theorem Paths.sound_nil : Paths.Sound [] := by
  rintro unit path ⟨⟩

theorem keyOf_path {path : List String} (nested : path ≠ []) (name : String) :
    Draft.keyOf name path = Text.joinScope path ++ "::" ++ name := by
  unfold Draft.keyOf Text.joinScope
  rw [String.intercalate_append_of_ne_nil nested (by simp), String.intercalate_singleton]

theorem Paths.Sound.pathIn {paths : Paths} (sound : paths.Sound) (scope : List String) (name : String) :
    Ruby.pathIn paths scope name ≠ [] ∧
      Text.joinScope (Ruby.pathIn paths scope name) = Draft.keyOf name scope := by
  unfold Ruby.pathIn
  cases known : paths.get? (Draft.keyOf name scope) with
  | some path => exact sound _ path known
  | none => exact ⟨by simp, rfl⟩

theorem Paths.Sound.put {paths : Paths} (sound : paths.Sound) {unit : String} {path : List String}
    (nested : path ≠ []) (spelled : Text.joinScope path = unit) : Paths.Sound (paths.put unit path) := by
  intro other found success
  rw [Entries.get?_put] at success
  split at success
  · next same =>
    cases success
    exact ⟨nested, by simp_all⟩
  · exact sound other found success

/-- Walks of units with names of some length at least, whose events are told. -/
def Fits (scene : Scene) (floor : Nat) (eventful : Eventful) : Prop :=
  ∀ paths events after, paths.Sound → eventful paths = .ok (events, after) →
    after.Sound ∧ (∀ event ∈ events, event.Told scene) ∧
      ∀ event ∈ events, ∀ unit, event.unit? = some unit → floor ≤ unit.length

theorem andThen_eq_ok {first second : Eventful} {paths after : Paths} {events : List Event}
    (success : first.andThen second paths = .ok (events, after)) :
    ∃ early middle late, first paths = .ok (early, middle) ∧ second middle = .ok (late, after) ∧
      events = early ++ late := by
  obtain ⟨⟨early, middle⟩, begun, remains⟩ := Except.bind_eq_ok_iff.mp success
  obtain ⟨⟨late, known⟩, ended, same⟩ := Except.bind_eq_ok_iff.mp remains
  cases same
  exact ⟨early, middle, late, begun, ended, rfl⟩

theorem of_eq_ok {event : List Call → List Event} {calls : Except WalkFault (List Call)}
    {paths after : Paths} {events : List Event}
    (success : Eventful.of event calls paths = .ok (events, after)) :
    ∃ made, calls = .ok made ∧ events = event made ∧ after = paths := by
  obtain ⟨made, told, same⟩ := Except.bind_eq_ok_iff.mp success
  cases same
  exact ⟨made, told, rfl, rfl⟩

variable {scene : Scene} {floor : Nat}

private theorem fits_nothing : Fits scene floor (fun paths => .ok ([], paths)) := by
  intro paths events after sound success
  cases success
  exact ⟨sound, by simp, by simp⟩

private theorem Fits.andThen {first second : Eventful} (fits : Fits scene floor first)
    (continues : Fits scene floor second) : Fits scene floor (first.andThen second) := by
  intro paths events after sound success
  obtain ⟨early, middle, late, begun, ended, rfl⟩ := andThen_eq_ok success
  obtain ⟨kept, told, deep⟩ := fits paths early middle sound begun
  obtain ⟨kept, toldLate, deepLate⟩ := continues middle late after kept ended
  refine ⟨kept, fun event member => ?_, fun event member => ?_⟩
  · exact (List.mem_append.mp member).elim (told event) (toldLate event)
  · exact (List.mem_append.mp member).elim (deep event) (deepLate event)

private theorem Fits.mono {lower : Nat} {eventful : Eventful} (fits : Fits scene floor eventful)
    (least : lower ≤ floor) : Fits scene lower eventful := by
  intro paths events after sound success
  obtain ⟨kept, told, deep⟩ := fits paths events after sound success
  exact ⟨kept, told, fun event member unit named => Nat.le_trans least (deep event member unit named)⟩

private theorem fits_given {α : Type} (first : Except WalkFault α) {events : α → Eventful}
    (each : ∀ value, first = .ok value → Fits scene floor (events value)) :
    Fits scene floor (fun paths => first >>= fun value => events value paths) := by
  intro paths made after sound success
  obtain ⟨value, known, remains⟩ := Except.bind_eq_ok_iff.mp success
  exact each value known paths made after sound remains

private theorem fits_quiet {calls : Except WalkFault (List Call)}
    (quiet : ∀ made, calls = .ok made → ∀ call ∈ made, call.Quiet) :
    Fits scene floor (Eventful.of (·.map .call) calls) := by
  intro paths events after sound success
  obtain ⟨made, told, rfl, rfl⟩ := of_eq_ok success
  refine ⟨sound, fun event member => ?_, fun event member unit named => ?_⟩
  · obtain ⟨call, listed, rfl⟩ := List.mem_map.mp member
    exact quiet made told call listed
  · obtain ⟨call, _, rfl⟩ := List.mem_map.mp member
    cases named

private theorem fits_body {nested : Tree → Eventful} {unit : String}
    (inner : ∀ tree, Fits scene (unit.length + 1) (nested tree)) (run : ProseRun)
    (before statements : List Tree) :
    Fits scene unit.length (bodyEvents scene nested unit run before statements) := by
  induction statements generalizing run before with
  | nil => exact fits_nothing
  | cons statement rest ih =>
    unfold bodyEvents
    split
    · exact fits_given _ fun run _ => ih run _
    · split
      · exact ((inner statement).mono (Nat.le_succ _)).andThen (ih {} _)
      · refine Fits.andThen ?_ (ih {} _)
        intro paths events after sound success
        obtain ⟨made, told, rfl, rfl⟩ := of_eq_ok success
        refine ⟨sound, fun event member => ?_, fun event member other named => ?_⟩
        · rw [List.mem_singleton.mp member]
          exact ⟨_, told⟩
        · rw [List.mem_singleton.mp member] at named
          cases named
          exact Nat.le_refl _

def leastLength (scope : List String) : Nat :=
  if scope = [] then 0 else (Text.joinScope scope).length + 1

private theorem leastLength_le (scope : List String) (name : String) :
    leastLength scope ≤ (Draft.keyOf name scope).length := by
  unfold leastLength
  split
  · exact Nat.zero_le _
  · next nested =>
    have marks : "::".length = 2 := by decide
    rw [keyOf_path nested, String.length_append, String.length_append]
    omega

/-- What a walk of a unit is made of. -/
theorem unitEvents_eq_ok {fuel : Nat} {scope : List String} {tree : Tree} {paths after : Paths}
    {events : List Event} (success : unitEvents scene fuel scope tree paths = .ok (events, after)) :
    ∃ less name superclass body, nameOf scene tree = .ok name ∧
      superclassCalls scene (Draft.keyOf name scope) tree = .ok superclass ∧
      ((bodyEvents scene (unitEvents scene less (pathIn paths scope name)) (Draft.keyOf name scope) {} []
          (statementsOf tree)).andThen
        (Eventful.of (·.map .call) (.ok (closingCalls (Draft.keyOf name scope) tree))))
        (paths.put (Draft.keyOf name scope) (pathIn paths scope name)) = .ok (body, after) ∧
      fuel = less + 1 ∧
      events = .opening (Draft.keyOf name scope) (.addUnit name (kindOf tree) scope :: superclass) :: body := by
  cases fuel with
  | zero => cases success
  | succ less =>
    obtain ⟨name, named, remains⟩ := Except.bind_eq_ok_iff.mp success
    obtain ⟨superclass, headed, remains⟩ := Except.bind_eq_ok_iff.mp remains
    obtain ⟨⟨body, known⟩, walked, same⟩ := Except.bind_eq_ok_iff.mp remains
    cases same
    exact ⟨less, name, superclass, body, named, headed, walked, rfl, rfl⟩

/-- The units in a scope have names that are longer than the scope. -/
theorem unitEvents_deeper (fuel : Nat) (scope : List String) (tree : Tree) :
    Fits scene (leastLength scope) (unitEvents scene fuel scope tree) := by
  induction fuel generalizing scope tree with
  | zero =>
    intro paths events after sound success
    cases success
  | succ fuel ih =>
    intro paths events after sound success
    obtain ⟨less, name, superclass, body, _, headed, walked, enough, rfl⟩ := unitEvents_eq_ok success
    obtain rfl : fuel = less := Nat.succ.inj enough
    obtain ⟨nested, spelled⟩ := sound.pathIn scope name
    have inner (tree : Tree) : Fits scene ((Draft.keyOf name scope).length + 1)
        (unitEvents scene fuel (pathIn paths scope name) tree) := by
      have fits := ih (pathIn paths scope name) tree
      rwa [leastLength, if_neg nested, spelled] at fits
    have closing : Fits scene (Draft.keyOf name scope).length
        (Eventful.of (·.map .call) (.ok (closingCalls (Draft.keyOf name scope) tree))) := by
      apply fits_quiet
      rintro made ⟨⟩ call member
      rw [closingCalls_mark _ tree call member]
      trivial
    have whole := (fits_body inner {} [] (statementsOf tree)).andThen closing
    have least := leastLength_le scope name
    obtain ⟨kept, told, deep⟩ := whole _ body after (sound.put nested spelled) walked
    refine ⟨kept, fun event member => ?_, fun event member unit named => ?_⟩
    · rcases List.mem_cons.mp member with rfl | inside
      · intro call listed
        rcases List.mem_cons.mp listed with rfl | later
        · trivial
        · obtain ⟨superclass, rfl⟩ := superclassCalls_inherit headed call later
          trivial
      · exact told event inside
    · rcases List.mem_cons.mp member with rfl | inside
      · cases named
        exact least
      · exact Nat.le_trans least (deep event inside unit named)

private theorem fits_top (tree : Tree) : Fits scene 0 (topEvents scene tree) := by
  unfold topEvents
  split
  · exact unitEvents_deeper scene.root.depth [] tree
  · refine fits_quiet fun calls made call member => ?_
    obtain ⟨name, rfl⟩ := topCalls_require made call member
    trivial

private theorem fits_events (trees : List Tree) : Fits scene 0 (eventsOf scene trees) := by
  induction trees with
  | nil => exact fits_nothing
  | cons tree rest ih => exact (fits_top tree).andThen ih

/-! ## Where the statements of a body are read -/

/-- The run of comments after statements: one that is no comment ends it. -/
def ProseRun.after (scene : Scene) (run : ProseRun) : List Tree → Except WalkFault ProseRun
  | [] => .ok run
  | statement :: rest =>
    if statement.isComment then do ProseRun.after scene (← (run.add scene statement).result) rest
    else ProseRun.after scene {} rest

/-- A body is walked in parts, cut at any statement. -/
theorem bodyEvents_append {nested : Tree → Eventful} {unit : String} {run : ProseRun}
    {before first second : List Tree} {paths after : Paths} {events : List Event}
    (success : bodyEvents scene nested unit run before (first ++ second) paths = .ok (events, after)) :
    ∃ early middle late next, bodyEvents scene nested unit run before first paths = .ok (early, middle) ∧
      run.after scene first = .ok next ∧
      bodyEvents scene nested unit next (before ++ first) second middle = .ok (late, after) ∧
      events = early ++ late := by
  induction first generalizing run before paths events with
  | nil => exact ⟨[], paths, events, run, rfl, rfl, by simpa using success, rfl⟩
  | cons statement rest ih =>
    rw [List.cons_append, bodyEvents] at success
    rw [bodyEvents, ProseRun.after]
    split at success
    · next comment =>
      rw [if_pos comment, if_pos comment]
      obtain ⟨longer, added, remains⟩ := Except.bind_eq_ok_iff.mp success
      obtain ⟨early, middle, late, next, walked, kept, follows, rfl⟩ := ih remains
      exact ⟨early, middle, late, next, by simp [added, walked], by simp [added, kept], by simpa using follows, rfl⟩
    · next plain =>
      rw [if_neg plain, if_neg plain]
      split at success
      · next inside =>
        rw [if_pos inside]
        obtain ⟨here, between, others, begun, remains, rfl⟩ := andThen_eq_ok success
        obtain ⟨early, middle, late, next, walked, kept, follows, rfl⟩ := ih remains
        refine ⟨here ++ early, middle, late, next, ?_, kept, by simpa using follows, by simp⟩
        simp [Eventful.andThen, begun, walked, pure, Except.pure]
      · next outside =>
        rw [if_neg outside]
        obtain ⟨here, between, others, begun, remains, rfl⟩ := andThen_eq_ok success
        obtain ⟨early, middle, late, next, walked, kept, follows, rfl⟩ := ih remains
        refine ⟨here ++ early, middle, late, next, ?_, kept, by simpa using follows, by simp⟩
        simp [Eventful.andThen, begun, walked, pure, Except.pure]

/-- Whether an event starts a body of a unit. -/
def Event.Opens (unit : String) (event : Event) : Prop := ∃ calls, event = .opening unit calls

/-- What is read in a body's unit while the body is walked are the plain statements of the body, and no
other body of the unit is opened meanwhile. -/
theorem stated_bodyEvents {nested : Tree → Eventful} {unit : String}
    (inner : ∀ tree, Fits scene (unit.length + 1) (nested tree)) {run : ProseRun}
    {before statements : List Tree} {paths after : Paths} {events : List Event} (sound : paths.Sound)
    (success : bodyEvents scene nested unit run before statements paths = .ok (events, after)) :
    stated unit events = statements.filter isPlain ∧ ∀ event ∈ events, ¬event.Opens unit := by
  induction statements generalizing run before paths events with
  | nil =>
    cases success
    exact ⟨rfl, by simp⟩
  | cons statement rest ih =>
    rw [bodyEvents] at success
    split at success
    · next comment =>
      obtain ⟨longer, added, remains⟩ := Except.bind_eq_ok_iff.mp success
      have skipped : isPlain statement = false := by simp [isPlain, comment]
      rw [List.filter_cons_of_neg (by simp [skipped])]
      exact ih sound remains
    · next comment =>
      split at success
      · next nests =>
        obtain ⟨here, between, others, begun, remains, rfl⟩ := andThen_eq_ok success
        obtain ⟨kept, _, deep⟩ := inner statement paths here between sound begun
        obtain ⟨same, unopened⟩ := ih kept remains
        have skipped : isPlain statement = false := by simp [isPlain, nests]
        have foreign : ∀ event ∈ here, event.unit? ≠ some unit := by
          intro event member named
          have longer := deep event member unit named
          omega
        have silent : stated unit here = [] := by
          apply List.filterMap_eq_nil_iff.mpr
          intro event member
          cases event with
          | statement other before tree calls =>
            have different : other ≠ unit := fun equal => foreign _ member (congrArg some equal)
            simp [Event.stated?, different]
          | _ => rfl
        rw [List.filter_cons_of_neg (by simp [skipped]), stated_append, silent]
        refine ⟨same, fun event member => ?_⟩
        rcases List.mem_append.mp member with early | late
        · rintro ⟨calls, rfl⟩
          exact foreign _ early rfl
        · exact unopened event late
      · next nests =>
        obtain ⟨here, between, others, begun, remains, rfl⟩ := andThen_eq_ok success
        obtain ⟨made, told, rfl, rfl⟩ := of_eq_ok begun
        obtain ⟨same, unopened⟩ := ih sound remains
        have read : isPlain statement = true := by simp [isPlain, comment, nests]
        rw [List.filter_cons_of_pos read, stated_append, same]
        refine ⟨by simp [stated, Event.stated?], fun event member => ?_⟩
        rcases List.mem_append.mp member with early | late
        · rw [List.mem_singleton.mp early]
          rintro ⟨calls, absurd⟩
          cases absurd
        · exact unopened event late

/-- The bodies of a tree, with the units that they belong to. -/
inductive Body (scene : Scene) : String → Tree → Prop where
  | outer {tree : Tree} {name : String} (listed : tree ∈ scene.root.namedChildren)
      (defines : isUnit tree = true) (named : nameOf scene tree = .ok name) : Body scene name tree
  | nested {unit : String} {around tree : Tree} {name : String} (within : Body scene unit around)
      (listed : tree ∈ statementsOf around) (defines : isUnit tree = true)
      (named : nameOf scene tree = .ok name) : Body scene (unit ++ "::" ++ name) tree

/-- A body of a unit is walked at one place among events, right after the unit is opened. -/
def WalkedIn (scene : Scene) (unit : String) (tree : Tree) (events : List Event) : Prop :=
  ∃ front opening part back fuel path before after,
    events = front ++ .opening unit opening :: (part ++ back) ∧ path ≠ [] ∧
      Text.joinScope path = unit ∧ Paths.Sound before ∧
      bodyEvents scene (unitEvents scene fuel path) unit {} [] (statementsOf tree) before = .ok (part, after)

private theorem walkedIn_of_unitEvents {front part back : List Event} {fuel : Nat} {scope : List String}
    {tree : Tree} {name : String} {before after : Paths} (sound : before.Sound)
    (success : unitEvents scene fuel scope tree before = .ok (part, after))
    (named : nameOf scene tree = .ok name) :
    WalkedIn scene (Draft.keyOf name scope) tree (front ++ part ++ back) := by
  obtain ⟨less, found, superclass, body, known, _, walked, _, rfl⟩ := unitEvents_eq_ok success
  obtain rfl : name = found := Except.ok.inj (named.symm.trans known)
  obtain ⟨nested, spelled⟩ := sound.pathIn scope name
  obtain ⟨inside, middle, closing, read, _, rfl⟩ := andThen_eq_ok walked
  refine ⟨front, .addUnit name (kindOf tree) scope :: superclass, inside, closing ++ back, less, _, _,
    middle, ?_, nested, spelled, sound.put nested spelled, read⟩
  simp

/-- Units in a path are deeper than the unit of the path. -/
theorem fits_nested {path : List String} {unit : String} (nested : path ≠ [])
    (spelled : Text.joinScope path = unit) (fuel : Nat) (tree : Tree) :
    Fits scene (unit.length + 1) (unitEvents scene fuel path tree) := by
  have fits := @unitEvents_deeper scene fuel path tree
  rwa [leastLength, if_neg nested, spelled] at fits

theorem isComment_of_isUnit {tree : Tree} (defines : isUnit tree = true) : tree.isComment = false := by
  unfold isUnit at defines
  unfold Tree.isComment
  rcases Bool.or_eq_true_iff.mp defines with same | same
  · rw [beq_iff_eq.mp same]
    decide
  · rw [beq_iff_eq.mp same]
    decide

/-- A unit among the statements of a body is walked at one place. -/
theorem exists_nested {nested : Tree → Eventful} {unit : String}
    (inner : ∀ tree, Fits scene (unit.length + 1) (nested tree)) {run : ProseRun}
    {before statements : List Tree} {paths after : Paths} {events : List Event} (sound : paths.Sound)
    (success : bodyEvents scene nested unit run before statements paths = .ok (events, after)) {tree : Tree}
    (listed : tree ∈ statements) (defines : isUnit tree = true) :
    ∃ front part back early late, events = front ++ part ++ back ∧ Paths.Sound early ∧
      nested tree early = .ok (part, late) := by
  obtain ⟨first, second, rfl⟩ := List.append_of_mem listed
  obtain ⟨front, early, others, next, begun, _, remains, rfl⟩ := bodyEvents_append success
  have kept := (fits_body inner _ _ _ paths front early sound begun).1
  rw [bodyEvents, if_neg (by simp [isComment_of_isUnit defines]), if_pos defines] at remains
  obtain ⟨part, late, back, walked, _, rfl⟩ := andThen_eq_ok remains
  exact ⟨front, part, back, early, late, by simp, kept, walked⟩

/-- A unit outside all others is walked at one place. -/
theorem exists_outer {trees : List Tree} {paths after : Paths} {events : List Event} (sound : paths.Sound)
    (success : eventsOf scene trees paths = .ok (events, after)) {tree : Tree} (listed : tree ∈ trees) :
    ∃ front part back early late, events = front ++ part ++ back ∧ Paths.Sound early ∧
      topEvents scene tree early = .ok (part, late) := by
  induction trees generalizing paths events with
  | nil => cases listed
  | cons first rest ih =>
    obtain ⟨here, between, others, begun, remains, rfl⟩ := andThen_eq_ok success
    rcases List.mem_cons.mp listed with rfl | later
    · exact ⟨[], here, others, paths, between, rfl, sound, begun⟩
    · have kept := (fits_top first paths here between sound begun).1
      obtain ⟨front, part, back, early, late, rfl, known, walked⟩ := ih kept remains later
      exact ⟨here ++ front, part, back, early, late, by simp, known, walked⟩

/-- Every body of a tree is walked. -/
theorem Body.walked {events : List Event} {paths : Paths}
    (told : eventsOf scene scene.root.namedChildren [] = .ok (events, paths)) {unit : String} {tree : Tree}
    (body : Body scene unit tree) : WalkedIn scene unit tree events := by
  induction body with
  | @outer tree name listed defines named =>
    obtain ⟨front, part, back, early, late, rfl, sound, walked⟩ :=
      exists_outer Paths.sound_nil told listed
    rw [topEvents, if_pos defines] at walked
    have keyed : Draft.keyOf name [] = name := by simp [Draft.keyOf, Text.joinScope]
    rw [← keyed]
    exact walkedIn_of_unitEvents sound walked named
  | @nested unit around tree name within listed defines named ih =>
    obtain ⟨front, opening, part, back, fuel, path, before, after, rfl, nested, spelled, sound, walked⟩ := ih
    obtain ⟨early, here, late, known, final, rfl, sound, walked⟩ :=
      exists_nested (fits_nested nested spelled fuel) sound walked listed defines
    have keyed : Draft.keyOf name path = unit ++ "::" ++ name := by rw [keyOf_path nested, spelled]
    have place : front ++ .opening unit opening :: (early ++ here ++ late ++ back) =
        (front ++ .opening unit opening :: early) ++ here ++ (late ++ back) := by simp
    rw [← keyed, place]
    exact walkedIn_of_unitEvents sound walked named

/-- Comments and nested units are no keywords. -/
theorem lastKeyword?_filter (statements : List Tree) :
    lastKeyword? scene (statements.filter isPlain) = lastKeyword? scene statements := by
  unfold lastKeyword?
  rw [List.filterMap_filter]
  refine congrArg List.getLast? (List.filterMap_congr fun statement _ => ?_)
  by_cases plain : isPlain statement = true
  · rw [if_pos plain]
  · have kinds : statement.kind = "comment" ∨ statement.kind = "class" ∨ statement.kind = "module" := by
      simpa [isPlain, Tree.isComment, isUnit, or_iff_not_imp_left] using plain
    rw [if_neg plain]
    rcases kinds with same | same | same
    · exact (bareKeyword?_of_kind scene (by simp [same]) (by simp [same])).symm
    · exact (bareKeyword?_of_kind scene (by simp [same]) (by simp [same])).symm
    · exact (bareKeyword?_of_kind scene (by simp [same]) (by simp [same])).symm

private theorem visibility_of_entryOf {tree : Tree} {context : MethodContext} {name : String}
    {entry : Draft.MethodEntry} (success : entryOf scene tree context name = .ok entry) :
    entry.visibility = context.visibility := by
  obtain ⟨parameters, _, remains⟩ := Except.bind_eq_ok_iff.mp success
  obtain ⟨body, _, same⟩ := Except.bind_eq_ok_iff.mp remains
  cases same
  rfl

/-- A definition adds one method, and says nothing of its visibility. -/
theorem statementCalls_of_definition {unit : String} {statement : Tree} {prose : Option String}
    {calls : List Call} (defines : isDefinition statement = true)
    (success : statementCalls scene unit statement prose = .ok calls) :
    ∃ entry, calls = [.addMethod unit entry] ∧ entry.visibility = none := by
  unfold statementCalls at success
  rcases Bool.or_eq_true_iff.mp defines with same | same
  · rw [beq_iff_eq.mp same] at success
    obtain ⟨name, _, remains⟩ := Except.bind_eq_ok_iff.mp success
    obtain ⟨entry, made, same⟩ := Except.bind_eq_ok_iff.mp remains
    cases same
    exact ⟨entry, rfl, visibility_of_entryOf made⟩
  · rw [beq_iff_eq.mp same] at success
    obtain ⟨name, _, remains⟩ := Except.bind_eq_ok_iff.mp success
    dsimp only at remains
    split at remains
    · obtain ⟨entry, made, same⟩ := Except.bind_eq_ok_iff.mp remains
      cases same
      exact ⟨entry, rfl, visibility_of_entryOf made⟩
    · obtain ⟨receiver, _, remains⟩ := Except.bind_eq_ok_iff.mp remains
      obtain ⟨entry, made, same⟩ := Except.bind_eq_ok_iff.mp remains
      cases same
      exact ⟨entry, rfl, visibility_of_entryOf made⟩

theorem isPlain_of_isDefinition {statement : Tree} (defines : isDefinition statement = true) :
    isPlain statement = true := by
  rcases Bool.or_eq_true_iff.mp defines with same | same
  · simp [isPlain, Tree.isComment, isUnit, beq_iff_eq.mp same]
  · simp [isPlain, Tree.isComment, isUnit, beq_iff_eq.mp same]

/-- Each plain statement of a body is read at one place, with the comments that the statements before it leave, and
between the start of the body and this place just the statements before it are read in its unit. -/
theorem Body.states {events : List Event} {paths : Paths}
    (told : eventsOf scene scene.root.namedChildren [] = .ok (events, paths)) {unit : String} {tree : Tree}
    (body : Body scene unit tree) {before after : List Tree} {statement : Tree}
    (split : statementsOf tree = before ++ statement :: after) (plain : isPlain statement = true) :
    ∃ earlier opening inner calls later run,
      events = earlier ++ .opening unit opening :: (inner ++ .statement unit before statement calls :: later) ∧
      (∀ event ∈ inner, ¬event.Opens unit) ∧ stated unit inner = before.filter isPlain ∧
      ProseRun.after scene {} before = .ok run ∧
      statementCalls scene unit statement (run.proseFor scene statement) = .ok calls := by
  obtain ⟨earlier, opening, part, back, fuel, path, known, final, rfl, nested, spelled, sound, walked⟩ :=
    body.walked told
  have inner := @fits_nested scene path unit nested spelled fuel
  rw [split] at walked
  obtain ⟨early, middle, late, run, begun, kept, remains, rfl⟩ := bodyEvents_append walked
  obtain ⟨same, unopened⟩ := stated_bodyEvents inner sound begun
  have uncommented : statement.isComment = false := by
    cases comment : statement.isComment <;> simp_all [isPlain]
  have unnested : isUnit statement = false := by
    cases nests : isUnit statement <;> simp_all [isPlain]
  rw [bodyEvents, if_neg (by simp [uncommented]), if_neg (by simp [unnested])] at remains
  obtain ⟨here, between, others, read, _, rfl⟩ := andThen_eq_ok remains
  obtain ⟨calls, makes, rfl, rfl⟩ := of_eq_ok read
  exact ⟨earlier, opening, early, calls, others ++ back, run, by simp, unopened, same, kept, makes⟩

/-- Each definition in a body is read at one place, and between the start of the body and this place
just the statements before it are read in its unit. -/
theorem Body.reads {events : List Event} {paths : Paths}
    (told : eventsOf scene scene.root.namedChildren [] = .ok (events, paths)) {unit : String} {tree : Tree}
    (body : Body scene unit tree) {before after : List Tree} {statement : Tree}
    (split : statementsOf tree = before ++ statement :: after)
    (defines : isDefinition statement = true) :
    ∃ earlier opening inner entry later,
      events = earlier ++ .opening unit opening ::
        (inner ++ .statement unit before statement [.addMethod unit entry] :: later) ∧
      (∀ event ∈ inner, ¬event.Opens unit) ∧ stated unit inner = before.filter isPlain ∧
      entry.visibility = none := by
  obtain ⟨earlier, opening, inner, calls, later, run, rfl, unopened, same, _, makes⟩ :=
    body.states told split (isPlain_of_isDefinition defines)
  obtain ⟨entry, rfl, open'⟩ := statementCalls_of_definition defines makes
  exact ⟨earlier, opening, inner, entry, later, rfl, unopened, same, open'⟩

/-- The visibility with which a definition is recorded: that of the last bare keyword before it in its
body, else that of the last one in the earlier bodies of its unit, else public. -/
def visibilityOf (scene : Scene) (before earlier : List Tree) : Visibility :=
  ((lastKeyword? scene before).or (lastKeyword? scene earlier)).getD .pub

/-- What a body that starts public would record. -/
def visibilityWithin (scene : Scene) (before : List Tree) : Visibility :=
  (lastKeyword? scene before).getD .pub

/-- The walk through the events records a definition of a unit at one place. The events `earlier` are
those before its body, and `visibility` is what the method has when it is recorded. -/
def Records (scene : Scene) (draft next : Draft) (events : List Event) (unit : String)
    (before : List Tree) (statement : Tree) (earlier : List Event) (visibility : Visibility) : Prop :=
  ∃ opening inner entry later reached recorded method,
    events = earlier ++ .opening unit opening ::
      (inner ++ .statement unit before statement [.addMethod unit entry] :: later) ∧
    (∀ event ∈ inner, ¬event.Opens unit) ∧
    (∃ prose, statementCalls scene unit statement prose = .ok [.addMethod unit entry]) ∧
    draft.Runs (callsOf (earlier ++ .opening unit opening :: inner)) reached ∧
    reached.Runs [.addMethod unit entry] recorded ∧
    recorded.Runs (callsOf later) next ∧
    (recorded.methodState unit).methods = (reached.methodState unit).methods ++ [method] ∧
    method.name = entry.name ∧ method.visibility = visibility

theorem methodState_empty (filename : Option String) (key : String) :
    (Draft.empty filename).methodState key = {} := rfl

/-- The active visibility where a definition is read. -/
theorem visibility_reached {events : List Event} {unit : String} {before : List Tree}
    {earlier inner : List Event} {opening : List Call} {filename : Option String} {reached : Draft}
    (told : ∀ event ∈ events, event.Told scene)
    (cut : events = earlier ++ .opening unit opening :: inner)
    (same : stated unit inner = before.filter isPlain)
    (run : (Draft.empty filename).Runs (callsOf events) reached) :
    (reached.methodState unit).visibility = visibilityOf scene before (stated unit earlier) := by
  have read : stated unit events = stated unit earlier ++ before.filter isPlain := by
    rw [cut, stated_append, ← same]
    rfl
  rw [run.methodState unit, methodState_empty, visibility_after told unit, read, lastKeyword?_append,
    lastKeyword?_filter]
  rfl

/-- Every definition in every body of a tree is recorded, and the visibility with which it is recorded is
that of the last bare keyword before it in its body, else that of the last one in the earlier bodies of
its unit, else public. So a body does not start public: what is recorded is what the body alone would
give exactly if the body sets a visibility before the definition or the earlier bodies left it public. -/
theorem walkInto_records {filename : Option String} {next : Draft}
    (success : (walkInto scene (Draft.empty filename)).result = .ok next) :
    ∃ events paths, eventsOf scene scene.root.namedChildren [] = .ok (events, paths) ∧
      ∀ unit tree, Body scene unit tree → ∀ before statement after,
        statementsOf tree = before ++ statement :: after → isDefinition statement = true →
        ∃ earlier, Records scene (Draft.empty filename) next events unit before statement earlier
            (visibilityOf scene before (stated unit earlier)) ∧
          (visibilityOf scene before (stated unit earlier) = visibilityWithin scene before ↔
            (lastKeyword? scene before).isSome = true ∨
              (lastKeyword? scene (stated unit earlier)).getD .pub = .pub) := by
  obtain ⟨events, paths, told, run⟩ := walkInto_eq_ok_iff.mp success
  refine ⟨events, paths, told, fun unit tree body before statement after split defines => ?_⟩
  have faithful := (fits_events scene.root.namedChildren [] events paths Paths.sound_nil told).2.1
  obtain ⟨earlier, opening, inner, entry, later, rfl, unopened, same, plain⟩ := body.reads told split defines
  refine ⟨earlier, ?_, ?_⟩
  · rw [← List.cons_append, ← List.append_assoc] at run
    rw [callsOf_append] at run
    obtain ⟨reached, enter, remains⟩ := Draft.runs_append.mp run
    rw [callsOf_cons] at remains
    obtain ⟨recorded, add, tail⟩ := Draft.runs_append.mp remains
    have reads : ∃ prose, statementCalls scene unit statement prose = .ok [.addMethod unit entry] :=
      faithful (.statement unit before statement [.addMethod unit entry]) (by simp)
    have active := visibility_reached (fun event member => faithful event ?_) rfl same enter
    · have added := add.methodState unit
      refine ⟨opening, inner, entry, later, reached, recorded, entry.taken (reached.methodState unit), rfl,
        unopened, reads, enter, add, tail, ?_, rfl, ?_⟩
      · rw [added]
        simp [Event.calls, methodsAfter, Call.unit?, Call.onMethods]
      · rw [Draft.MethodEntry.taken, plain]
        exact active
    · rw [← List.cons_append, ← List.append_assoc]
      exact List.mem_append_left _ member
  · unfold visibilityWithin visibilityOf
    cases lastKeyword? scene before with
    | some visibility => simp
    | none => simp

/-- A definition without parameters and without a body. -/
def plainDefinition : Tree :=
  .node { kind := "method", start := 32, stop := 43 }
    [.node { kind := "identifier", start := 36, stop := 37, field := some "name" } []]

/-- A body that reopens a class and defines a method in it. -/
def secondBody : Tree :=
  .node { kind := "class", start := 22, stop := 47 }
    [.node { kind := "constant", start := 28, stop := 29, field := some "name" } [],
      .node { kind := "body_statement", start := 32, stop := 43, field := some "body" } [plainDefinition]]

/-- A class of two bodies: a keyword stands in the first, a definition in the second. -/
def reopenedClass : Scene where
  source := .ofText "class A\n  private\nend\nclass A\n  def x\n  end\nend\n"
  root := .node { kind := "program", start := 0, stop := 48 }
    [.node { kind := "class", start := 0, stop := 21 }
      [.node { kind := "constant", start := 6, stop := 7, field := some "name" } [],
        .node { kind := "body_statement", start := 10, stop := 17, field := some "body" }
          [.node { kind := "identifier", start := 10, stop := 17 } []]],
      secondBody]

/-- The second body records its method as private, though no keyword stands in it. -/
theorem walkInto_records_of_reopened :
    (∃ next, (walkInto reopenedClass (Draft.empty none)).result = .ok next ∧
      ((next.methodState "A").methods.map Method.visibility) = [.priv] ∧
      ∃ events earlier, Records reopenedClass (Draft.empty none) next events "A" [] plainDefinition earlier
        (visibilityOf reopenedClass [] (stated "A" earlier))) ∧
      visibilityWithin reopenedClass [] = .pub := by
  have reads : (walkInto reopenedClass (Draft.empty none)).result.isOk = true := by decide +kernel
  have hidden : (walkInto reopenedClass (Draft.empty none)).result.toOption.map (fun next =>
      (next.methodState "A").methods.map Method.visibility) = some [.priv] := by decide +kernel
  obtain ⟨next, success⟩ := Except.exists_of_isOk reads
  have listed : secondBody ∈ reopenedClass.root.namedChildren := by
    simp [reopenedClass, Tree.namedChildren, Tree.children, secondBody, Tree.label]
  have named : nameOf reopenedClass secondBody = .ok "A" := by decide +kernel
  obtain ⟨events, paths, _, records⟩ := walkInto_records success
  obtain ⟨earlier, recorded, _⟩ :=
    records "A" secondBody (.outer listed (by decide) named) [] plainDefinition [] rfl (by decide)
  rw [success] at hidden
  exact ⟨⟨next, success, Option.some.inj hidden, events, earlier, recorded⟩, rfl⟩

end LiterateRuby.Ruby
