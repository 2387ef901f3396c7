import LiterateRuby.Proofs.Draft.Sound

/-! # What any sequence of calls collects

Whatever calls a draft receives, in whatever order and however many of them are refused, the document
that it builds lists units and names in the order in which they were first given, keeps both forms of
alias apart, and breaks no rule of units and methods. The history of a draft consists of the calls
that were not refused.
-/

namespace LiterateRuby.Draft

/-- The lists of a unit that keep each name once. -/
inductive NameList where
  | included
  | extended
  | declared (accessor : Accessor)

namespace NameList

def ofDraft (unit : UnitDraft) : NameList → List String
  | .included => unit.included
  | .extended => unit.extended
  | .declared .reader => unit.readerNames
  | .declared .writer => unit.writerNames
  | .declared .both => unit.accessorNames

def ofUnit (unit : RubyUnit) : NameList → List String
  | .included => unit.included
  | .extended => unit.extended
  | .declared accessor => unit.declared accessor

/-- The names that a call gives to the list of a unit; an empty text names no attribute. -/
def given (list : NameList) (key : String) (call : Call) : List String :=
  match list, call with
  | .included, .addInclude unit name => if unit = key then [name] else []
  | .extended, .addExtend unit name => if unit = key then [name] else []
  | .declared accessor, .addDeclared unit other names =>
    if unit = key ∧ other = accessor then names.filter (· != "") else []
  | _, _ => []

end NameList

/-- Whether a call is not refused. -/
def accepts (draft : Draft) (call : Call) : Bool := (draft.perform call).result.isOk

def accepted (draft : Draft) : List Call → List Call
  | [] => []
  | call :: rest =>
    if draft.accepts call then call :: (draft.after call).accepted rest
    else (draft.after call).accepted rest

/-- A document holds what the calls of a history gave it. -/
structure Collected (history : List Call) (document : Document) : Prop where
  /-- Units stand in the order in which their qualified names were first added. -/
  units : document.units.map (·.qualifiedName) = Text.distinct (history.filterMap Call.opened?)
  unitsOnce : (document.units.map (·.qualifiedName)).Nodup
  requires : document.requires =
    Text.distinct ((history.flatMap Call.required).filter (· != ""))
  requiresOnce : document.requires.Nodup
  names : ∀ unit ∈ document.units, ∀ list : NameList, list.ofUnit unit =
    Text.distinct (history.flatMap (list.given unit.qualifiedName))
  namesOnce : ∀ unit ∈ document.units, ∀ list : NameList, (list.ofUnit unit).Nodup
  aliases : ∀ unit ∈ document.units, ∀ name ∈ unit.aliases.keys, name ∉ unit.aliasMethods.keys
  classVariables : ∀ unit ∈ document.units, ∀ name ∈ unit.classVariables.keys,
    ['@', '@'] <+: name.toList
  receivers : ∀ unit ∈ document.units, ∀ method ∈ unit.methods,
    (Method.isDotted method.name = true ↔ method.binding = .onReceiver)
  forwards : ∀ unit ∈ document.units, ∀ method ∈ unit.methods,
    (method.parameters.filter (· == .forward)).length ≤ 1
  namespaces : ∀ unit ∈ document.units, unit.isNamespaceOnly = true → unit.hasOwnContent = false
  superclasses : ∀ unit ∈ document.units, unit.superclass?.isSome = true → unit.kind = .cls

/-- A draft holds what the calls of a history gave it. -/
structure Holds (history : List Call) (draft : Draft) : Prop where
  sound : draft.Sound
  unbuilt : draft.built = false
  opened : draft.units.keys = Text.distinct (history.filterMap Call.opened?)
  addressed : ∀ call ∈ history, ∀ key, call.unit? = some key → key ∈ draft.units.keys
  requires : draft.requires = Text.distinct ((history.flatMap Call.required).filter (· != ""))
  names : ∀ key unit, draft.units.get? key = some unit → ∀ list : NameList,
    list.ofDraft unit = Text.distinct (history.flatMap (list.given key))

theorem holds_empty (filename : Option String) : Holds [] (empty filename) where
  sound := ⟨List.nodup_nil, by simp [empty], List.nodup_nil⟩
  unbuilt := rfl
  opened := rfl
  addressed := by simp
  requires := rfl
  names := by simp [empty]

namespace Call

theorem required_of_unit {call : Call} {key : String} (addressed : call.unit? = some key) :
    call.required = [] := by
  cases call <;> first | rfl | cases addressed

theorem opened?_of_document {call : Call} (addressed : call.unit? = none) : call.opened? = none := by
  cases call <;> first | rfl | cases addressed

private theorem opened?_eq_of_unit {call : Call} {key : String} (addressed : call.unit? = some key) :
    call.opened? = none ∨ call.opened? = some key := by
  cases call <;> first | exact .inl rfl | exact .inr addressed

/-- Only a call that opens a unit makes something of a unit that is not there. -/
theorem opened?_of_fresh {call : Call} {key : String} {unit : UnitDraft}
    (addressed : call.unit? = some key) (fresh : call.fresh? = some unit) :
    call.opened? = some key := by
  cases call <;> first | exact addressed | cases fresh

private theorem given_eq_nil {call : Call} {key : String} (list : NameList)
    (elsewhere : call.unit? ≠ some key) : list.given key call = [] := by
  cases list <;> cases call <;> first
    | rfl
    | (simp only [Call.unit?, ne_eq, Option.some.injEq] at elsewhere
       simp [NameList.given, elsewhere])

private theorem names_of_fresh {call : Call} {unit : UnitDraft} (key : String) (list : NameList)
    (fresh : call.fresh? = some unit) :
    list.ofDraft unit = [] ∧ list.given key call = [] := by
  cases Call.opens_of_fresh? fresh with
  | unit named => rcases list with _ | _ | _ | _ | _ <;> exact ⟨rfl, rfl⟩
  | holder => rcases list with _ | _ | _ | _ | _ <;> exact ⟨rfl, rfl⟩

/-- A call adds the names that it gives to the lists of its unit, and to no other list. -/
theorem names_of_update {call : Call} {key : String} {unit next : UnitDraft} {before : List String}
    (list : NameList) (addressed : call.unit? = some key) (updated : call.update? unit = some next)
    (names : list.ofDraft unit = Text.distinct before) :
    list.ofDraft next = Text.distinct (before ++ list.given key call) := by
  have same (kept : list.ofDraft next = list.ofDraft unit) (empty : list.given key call = []) :
      list.ofDraft next = Text.distinct (before ++ list.given key call) := by
    rw [kept, empty, List.append_nil]
    exact names
  -- the calls that give a name say so of one list each
  have declared {listed accessor : Accessor} {given : List String}
      (names : (NameList.declared listed).ofDraft unit = Text.distinct before) (one : listed = accessor) :
      appendNew ((NameList.declared listed).ofDraft unit) given =
        Text.distinct (before ++ (NameList.declared listed).given key (.addDeclared key accessor given)) := by
    rw [names, appendNew_distinct]
    simp [NameList.given, one]
  cases Call.updates_of_update? updated with
  | included =>
    cases addressed
    rcases list with _ | _ | _ | _ | _ <;> try exact same rfl rfl
    change appendOnce unit.included _ = _
    change unit.included = _ at names
    rw [names, appendOnce_distinct]
    simp [NameList.given]
  | extended =>
    cases addressed
    rcases list with _ | _ | _ | _ | _ <;> try exact same rfl rfl
    change appendOnce unit.extended _ = _
    change unit.extended = _ at names
    rw [names, appendOnce_distinct]
    simp [NameList.given]
  | readers | writers | accessors =>
    cases addressed
    rcases list with _ | _ | _ | _ | _
    all_goals first | exact declared names rfl | exact same rfl (by simp [NameList.given])
  | _ => rcases list with _ | _ | _ | _ | _ <;> exact same rfl rfl

private theorem names_of_effect {call : Call} {key : String} {slot : Option UnitDraft} {unit : UnitDraft}
    {before : List String} (list : NameList) (addressed : call.unit? = some key)
    (effect : call.effect? slot = some unit)
    (names : ∀ held, slot = some held → list.ofDraft held = Text.distinct before)
    (unseen : slot = none → before = []) :
    list.ofDraft unit = Text.distinct (before ++ list.given key call) := by
  cases slot with
  | none =>
    obtain ⟨nothing, given⟩ := names_of_fresh key list effect
    rw [nothing, given, unseen rfl]
    rfl
  | some held => exact names_of_update list addressed effect (names held rfl)

end Call

/-! ## One call, and all of them -/

theorem perform_built {draft next : Draft} {call : Call} {reply : Reply}
    (success : (draft.perform call).result = .ok (next, reply)) : next.built = draft.built := by
  cases addressed : call.unit? with
  | none => exact (perform_document addressed success).2.2
  | some key =>
    obtain ⟨unit, _, touched⟩ := perform_unit addressed success
    exact touched.built

/-- A call that opens no unit is refused unless its unit is there. -/
theorem mem_keys_of_effect {draft : Draft} {call : Call} {key : String} {unit : UnitDraft}
    (addressed : call.unit? = some key) (effect : call.effect? (draft.units.get? key) = some unit)
    (opens : call.opened? = none) : key ∈ draft.units.keys := by
  cases present : draft.units.get? key with
  | some held => exact Entries.mem_keys_of_get? present
  | none =>
    rw [present] at effect
    rw [Call.opened?_of_fresh addressed effect] at opens
    cases opens

/-- What a draft holds after a call that was not refused. -/
theorem Holds.step {history : List Call} {draft next : Draft} {call : Call} {reply : Reply}
    (holds : Holds history draft) (proper : call.Proper)
    (success : (draft.perform call).result = .ok (next, reply)) : Holds (history ++ [call]) next := by
  have unbuilt : next.built = false := (perform_built success).trans holds.unbuilt
  have requires (libraries : next.requires = appendNew draft.requires call.required) :
      next.requires =
        Text.distinct (((history ++ [call]).flatMap Call.required).filter (· != "")) := by
    rw [libraries, holds.requires, appendNew_distinct, List.flatMap_append, List.filter_append]
    simp
  cases addressed : call.unit? with
  | none =>
    obtain ⟨units, libraries, _⟩ := perform_document addressed success
    have libraries := requires libraries
    refine ⟨⟨units ▸ holds.sound.distinct, units ▸ holds.sound.units, ?_⟩, unbuilt, ?_, ?_, libraries, ?_⟩
    · rw [libraries]
      exact Text.nodup_distinct _
    · rw [units, holds.opened, List.filterMap_append, List.filterMap_cons_none
        (Call.opened?_of_document addressed), List.filterMap_nil, List.append_nil]
    · intro other member key target
      rw [units]
      rcases List.mem_append.mp member with old | new
      · exact holds.addressed other old key target
      · rw [List.mem_singleton.mp new, addressed] at target
        cases target
    · intro key unit found list
      rw [units] at found
      rw [holds.names key unit found list, List.flatMap_append, List.flatMap_singleton,
        Call.given_eq_nil list (by simp [addressed]), List.append_nil]
  | some key =>
    obtain ⟨unit, effect, touched⟩ := perform_unit addressed success
    have unitSound := proper.effect_sound addressed (holds.sound.units key) effect
    have keys : next.units.keys = Text.distinct ((history ++ [call]).filterMap Call.opened?) := by
      rw [touched.keys, List.filterMap_append]
      rcases Call.opened?_eq_of_unit addressed with no | opens
      · rw [if_pos (mem_keys_of_effect addressed effect no), List.filterMap_cons_none no,
          List.filterMap_nil, List.append_nil]
        exact holds.opened
      · rw [List.filterMap_cons_some opens, List.filterMap_nil, Text.distinct_concat, ← holds.opened]
        simp
    have kept : ∀ other ∈ draft.units.keys, other ∈ next.units.keys := by
      intro other member
      rw [touched.keys]
      split
      · exact member
      · exact List.mem_append_left _ member
    refine ⟨touched.sound holds.sound unitSound, unbuilt, keys, ?_, requires ?_, ?_⟩
    · intro other member target address
      rcases List.mem_append.mp member with old | new
      · exact kept target (holds.addressed other old target address)
      · rw [List.mem_singleton.mp new, addressed] at address
        cases address
        exact Entries.mem_keys_of_get? touched.get?_self
    · rw [touched.requires, Call.required_of_unit addressed]
      rfl
    · intro asked held found list
      rw [List.flatMap_append, List.flatMap_singleton]
      by_cases same : asked = key
      · subst same
        rw [touched.get?_self] at found
        cases found
        refine Call.names_of_effect list addressed effect
          (fun old present => holds.names asked old present list) fun absent => ?_
        refine List.flatMap_eq_nil_iff.mpr fun other member => Call.given_eq_nil list fun address => ?_
        exact Entries.get?_eq_none_iff.mp absent (holds.addressed other member asked address)
      · rw [touched.get?_of_ne same] at found
        rw [holds.names asked held found list, Call.given_eq_nil list (by
          rw [addressed]
          simpa using Ne.symm same), List.append_nil]

/-- What a draft holds after a sequence of calls. -/
theorem Holds.run {history : List Call} {draft : Draft} (calls : List Call)
    (holds : Holds history draft) (proper : ∀ call ∈ calls, call.Proper) :
    Holds (history ++ draft.accepted calls) (draft.afterAll calls) := by
  induction calls generalizing history draft with
  | nil => simpa [accepted, afterAll] using holds
  | cons call rest ih =>
    have later : ∀ other ∈ rest, other.Proper := fun other member =>
      proper other (List.mem_cons_of_mem _ member)
    change Holds (history ++ draft.accepted (call :: rest)) ((draft.after call).afterAll rest)
    unfold accepted accepts after
    cases outcome : (draft.perform call).result with
    | error refusal =>
      -- a refused call leaves the draft, so the rest continues from the same history
      exact ih holds later
    | ok answer =>
      obtain ⟨next, reply⟩ := answer
      have step := holds.step (proper call List.mem_cons_self) outcome
      have run := ih step later
      rw [List.append_assoc, List.singleton_append] at run
      exact run

private theorem Holds.collected {history : List Call} {draft : Draft} (holds : Holds history draft) :
    Collected history draft.document := by
  have sound := holds.sound
  have frozen : ∀ unit ∈ draft.document.units, ∃ key held, draft.units.get? key = some held ∧
      unit = held.frozen := by
    intro unit member
    obtain ⟨⟨key, held⟩, present, rfl⟩ := List.mem_map.mp member
    exact ⟨key, held, Entries.get?_of_mem sound.distinct present, rfl⟩
  have names : ∀ unit ∈ draft.document.units, ∀ list : NameList, list.ofUnit unit =
      Text.distinct (history.flatMap (list.given unit.qualifiedName)) := by
    intro unit member list
    obtain ⟨key, held, found, rfl⟩ := frozen unit member
    obtain ⟨nature, same⟩ := held.frozen_eq
    rw [held.frozen_qualifiedName, (sound.units key held found).keyed,
      ← holds.names key held found list, same]
    rcases list with _ | _ | _ | _ | _ <;> rfl
  refine ⟨sound.names_eq.trans holds.opened, sound.names_eq ▸ sound.distinct, holds.requires,
    sound.requires, names, fun unit member list => names unit member list ▸ Text.nodup_distinct _,
    ?_, ?_, ?_, ?_, ?_, ?_⟩
  · intro unit member
    obtain ⟨key, held, found, rfl⟩ := frozen unit member
    obtain ⟨nature, same⟩ := held.frozen_eq
    rw [same]
    exact (sound.units key held found).apart
  · intro unit member
    obtain ⟨key, held, found, rfl⟩ := frozen unit member
    obtain ⟨nature, same⟩ := held.frozen_eq
    rw [same]
    exact (sound.units key held found).classVariables
  · intro unit member method inUnit
    obtain ⟨key, held, found, rfl⟩ := frozen unit member
    obtain ⟨nature, same⟩ := held.frozen_eq
    rw [same] at inUnit
    exact (Method.flaw?_eq_none_iff.mp ((sound.units key held found).methods method inUnit)).2.1
  · intro unit member method inUnit
    obtain ⟨key, held, found, rfl⟩ := frozen unit member
    obtain ⟨nature, same⟩ := held.frozen_eq
    rw [same] at inUnit
    exact (Method.flaw?_eq_none_iff.mp ((sound.units key held found).methods method inUnit)).2.2
  · intro unit member mere
    obtain ⟨key, held, found, rfl⟩ := frozen unit member
    exact UnitDraft.hasOwnContent_of_frozen mere
  · intro unit member inherits
    obtain ⟨name, given⟩ := Option.isSome_iff_exists.mp inherits
    exact (RubyUnit.of_superclass? given).1

/-- A draft that holds what calls collected is built. -/
theorem Holds.build_eq {history : List Call} {draft : Draft} (holds : Holds history draft) :
    draft.build.2 = .ok draft.document :=
  holds.sound.build_eq holds.unbuilt

/-- The first build after any proper calls succeeds, and its document is what they collected. -/
theorem build_afterAll (filename : Option String) (calls : List Call)
    (proper : ∀ call ∈ calls, call.Proper) :
    ∃ document, ((empty filename).afterAll calls).build.2 = .ok document ∧
      Collected ((empty filename).accepted calls) document := by
  have holds := (holds_empty filename).run calls proper
  rw [List.nil_append] at holds
  exact ⟨((empty filename).afterAll calls).document, holds.build_eq, holds.collected⟩

/-- A holder that becomes a class, an alias and a method that are refused, a unit that is unknown. -/
theorem build_afterAll_of_refused :
    ∃ document, ((empty none).afterAll [.ensureHolder "A" [], .addUnit "B" .mod ["A"],
        .addUnit "A" .cls [], .addAlias "A" "x" "y", .addAliasMethod "A" "x" "z",
        .addMethod "A" ⟨"a.b", [], .onInstance, "", none, none⟩, .addInclude "C" "M",
        .addInclude "A" "M", .addRequire "json"]).build.2 = .ok document ∧
      Collected ((empty none).accepted [.ensureHolder "A" [], .addUnit "B" .mod ["A"],
        .addUnit "A" .cls [], .addAlias "A" "x" "y", .addAliasMethod "A" "x" "z",
        .addMethod "A" ⟨"a.b", [], .onInstance, "", none, none⟩, .addInclude "C" "M",
        .addInclude "A" "M", .addRequire "json"]) document := by
  refine build_afterAll none _ ?_
  have single : ∀ name ∈ ["A", "B"], "" ∉ Text.scopeSegments name := by decide
  intro call member
  simp only [List.mem_cons, List.not_mem_nil, or_false] at member
  rcases member with rfl | rfl | rfl | rfl | rfl | rfl | rfl | rfl | rfl <;>
    first
      | trivial
      | exact ⟨by decide, single _ (by decide), by decide⟩

end LiterateRuby.Draft
