import LiterateRuby.Proofs.Draft.Enclosed

/-! # Units that do not interfere

A refused call leaves no trace, and any other call changes only the unit that it addresses. So what a unit
is after a sequence of calls, in which any number may be refused, is decided by the calls that address it
and by their order (`get?_afterAll`). A document that is built therefore tells nothing of how the calls to
different units were interleaved but the order of its units.
-/

namespace LiterateRuby.Draft

def callsTo (key : String) (calls : List Call) : List Call := calls.filter (·.unit? == some key)

/-- What a call leaves of the unit that it addresses: a refused call leaves it as it is. -/
def Call.leaves (slot : Option UnitDraft) (call : Call) : Option UnitDraft := (call.effect? slot).or slot

private theorem after_of_ok {draft next : Draft} {call : Call} {reply : Reply}
    (success : (draft.perform call).result = .ok (next, reply)) : draft.after call = next := by
  simp only [after, success]

/-- A call is refused, or it leads to another draft. -/
theorem after_cases (draft : Draft) (call : Call) :
    (draft.accepts call = false ∧ draft.after call = draft) ∨
      ∃ reply, (draft.perform call).result = .ok (draft.after call, reply) := by
  cases outcome : (draft.perform call).result with
  | error refusal =>
    left
    simp [accepts, after, outcome, Except.isOk, Except.toBool]
  | ok answer =>
    obtain ⟨next, reply⟩ := answer
    right
    exact ⟨reply, by rw [after_of_ok outcome]⟩

/-- Without the calls that were refused, the draft is the same. -/
theorem afterAll_accepted (draft : Draft) (calls : List Call) :
    draft.afterAll (draft.accepted calls) = draft.afterAll calls := by
  induction calls generalizing draft with
  | nil => rfl
  | cons call rest ih =>
    unfold accepted
    split
    · exact ih (draft.after call)
    · next refused =>
      obtain ⟨_, same⟩ | ⟨reply, success⟩ := draft.after_cases call
      · rw [same]
        change draft.afterAll (draft.accepted rest) = (draft.after call).afterAll rest
        rw [ih, same]
      · simp [accepts, success, Except.isOk, Except.toBool] at refused

/-- The calls that are not refused run to the same draft. -/
theorem runs_accepted (draft : Draft) (calls : List Call) :
    draft.Runs (draft.accepted calls) (draft.afterAll calls) := by
  induction calls generalizing draft with
  | nil => rfl
  | cons call rest ih =>
    change draft.Runs (draft.accepted (call :: rest)) ((draft.after call).afterAll rest)
    obtain ⟨refused, same⟩ | ⟨reply, success⟩ := draft.after_cases call
    · rw [accepted, refused, if_neg Bool.false_ne_true, same]
      exact ih draft
    · have taken : draft.accepts call = true := by simp [accepts, success, Except.isOk, Except.toBool]
      rw [accepted, if_pos taken]
      exact ⟨_, reply, success, ih (draft.after call)⟩

/-! ## One unit -/

private theorem get?_after_of_unit {draft : Draft} {call : Call} {key : String}
    (addressed : call.unit? = some key) :
    (draft.after call).units.get? key = call.leaves (draft.units.get? key) := by
  unfold Call.leaves
  cases effect : call.effect? (draft.units.get? key) with
  | some unit =>
    obtain ⟨next, reply, success⟩ := (exists_perform_iff addressed).mpr ⟨unit, effect⟩
    obtain ⟨made, same, touched⟩ := perform_unit addressed success
    cases effect.symm.trans same
    rw [after_of_ok success, touched.get?_self, Option.some_or]
  | none =>
    obtain ⟨_, same⟩ | ⟨reply, success⟩ := draft.after_cases call
    · rw [same, Option.none_or]
    · obtain ⟨unit, made, _⟩ := perform_unit addressed success
      cases effect.symm.trans made

private theorem get?_after_of_ne {draft : Draft} {call : Call} {key : String} (elsewhere : call.unit? ≠ some key) :
    (draft.after call).units.get? key = draft.units.get? key := by
  obtain ⟨_, same⟩ | ⟨reply, success⟩ := draft.after_cases call
  · rw [same]
  · exact get?_of_perform success elsewhere

/-- What a unit is after calls is decided by the calls that address it. -/
theorem get?_afterAll (draft : Draft) (calls : List Call) (key : String) :
    (draft.afterAll calls).units.get? key =
      (callsTo key calls).foldl Call.leaves (draft.units.get? key) := by
  induction calls generalizing draft with
  | nil => rfl
  | cons call rest ih =>
    change ((draft.after call).afterAll rest).units.get? key = _
    rw [ih]
    by_cases addressed : call.unit? = some key
    · rw [get?_after_of_unit addressed]
      simp [callsTo, addressed]
    · rw [get?_after_of_ne addressed]
      simp [callsTo, addressed]

/-- Of the calls to one unit, none addresses another one. -/
theorem callsTo_callsTo (key other : String) (calls : List Call) :
    callsTo other (callsTo key calls) = if other = key then callsTo key calls else [] := by
  unfold callsTo
  rw [List.filter_filter]
  split
  · next same =>
    subst same
    simp
  · next different =>
    refine List.filter_eq_nil_iff.mpr fun call _ both => ?_
    simp only [Bool.and_eq_true, beq_iff_eq] at both
    exact different (Option.some.inj (both.1.symm.trans both.2))

/-- Calls that open no unit that other calls open can follow them, and add their units after those of the
other calls. -/
theorem Runs.append_apart {filename upperFile lowerFile : Option String} {first second : List Call}
    {upper lower : Draft} (begins : (empty upperFile).Runs first upper)
    (follows : (empty lowerFile).Runs second lower)
    (proper : ∀ call ∈ first ++ second, call.Proper) (given : ∀ call ∈ first ++ second, call.Given)
    (apart : ∀ key ∈ upper.units.keys, key ∉ lower.units.keys) :
    ∃ next, (empty filename).Runs (first ++ second) next ∧ Holds (first ++ second) next ∧
      next.units = upper.units ++ lower.units := by
  have holds : Holds first upper := begins.holds (holds_empty upperFile) fun call made =>
    proper call (List.mem_append_left _ made)
  have keeps : Holds second lower := follows.holds (holds_empty lowerFile) fun call made =>
    proper call (List.mem_append_right _ made)
  have slots (key : String) : slotRun? key none (first ++ second) =
      some ((upper.units ++ lower.units).get? key) := by
    have above : slotRun? key none first = some (upper.units.get? key) := begins.get? key
    have below : slotRun? key none second = some (lower.units.get? key) := follows.get? key
    rw [slotRun?_append, above, Option.bind_some, Entries.get?_append]
    by_cases lowered : key ∈ lower.units.keys
    · -- the first calls have not opened the unit
      rw [Entries.get?_eq_none_iff.mpr fun member => apart key member lowered, Option.none_or, below]
    · rw [Entries.get?_eq_none_iff.mpr lowered, Option.or_none]
      exact slotRun?_of_elsewhere
        (fun call made addressed => lowered (keeps.addressed call made key addressed)) _
  obtain ⟨next, run⟩ := (@exists_runs_iff (empty filename) _ given).mpr fun key =>
    Option.isSome_of_eq_some (slots key)
  have held : Holds (first ++ second) next := run.holds (holds_empty filename) proper
  refine ⟨next, run, held, Entries.eq_of_get? held.sound.distinct ?_ fun key => ?_⟩
  · have opened : ∀ key ∈ first.filterMap Call.opened?, key ∉ second.filterMap Call.opened? := by
      intro key above below
      refine apart key ?_ ?_
      · rwa [holds.opened, Text.mem_distinct]
      · rwa [keeps.opened, Text.mem_distinct]
    rw [held.opened, List.filterMap_append, Text.distinct_append_of_apart opened, ← holds.opened,
      ← keeps.opened, Entries.keys, Entries.keys, Entries.keys, List.map_append]
  · exact Option.some.inj ((run.get? key).symm.trans (slots key))

/-! ## Building after any calls -/

/-- What any calls, refused or not, keep of a draft that is not built yet. -/
structure Ready (draft : Draft) : Prop where
  keyed : draft.Keyed
  requires : draft.requires.Nodup
  unbuilt : draft.built = false

theorem ready_empty (filename : Option String) : (empty filename).Ready where
  keyed := ⟨List.nodup_nil, by simp [empty]⟩
  requires := List.nodup_nil
  unbuilt := rfl

private theorem nodup_appendNew {items : List String} (once : items.Nodup) (new : List String) :
    (appendNew items new).Nodup := by
  rw [← Text.distinct_of_nodup once, appendNew_distinct]
  exact Text.nodup_distinct _

/-- A unit is kept under the name and the scope that it is opened with. -/
theorem Call.effect?_keyed {call : Call} {key : String} {slot : Option UnitDraft} {unit : UnitDraft}
    (addressed : call.unit? = some key)
    (keyed : ∀ held, slot = some held → keyOf held.name held.scope = key)
    (effect : call.effect? slot = some unit) : keyOf unit.name unit.scope = key := by
  cases slot with
  | none =>
    obtain ⟨opened, _⟩ := Call.fresh?_place effect
    exact Option.some.inj ((Call.unit?_of_opened? opened).symm.trans addressed)
  | some held =>
    obtain ⟨named, within⟩ := Call.update?_place effect
    rw [named, within]
    exact keyed held rfl

private theorem Touched.keyed {key : String} {unit : UnitDraft} {draft next : Draft}
    (touched : Touched key unit draft next) (keyed : draft.Keyed)
    (named : keyOf unit.name unit.scope = key) : next.Keyed where
  distinct := touched.distinct keyed.distinct
  named asked held found := by
    by_cases same : asked = key
    · subst same
      cases touched.get?_self.symm.trans found
      exact named
    · rw [touched.get?_of_ne same] at found
      exact keyed.named asked held found

private theorem Ready.after {draft : Draft} (ready : draft.Ready) (call : Call) : (draft.after call).Ready := by
  obtain ⟨_, same⟩ | ⟨reply, success⟩ := draft.after_cases call
  · rw [same]
    exact ready
  · have unbuilt := (perform_built success).trans ready.unbuilt
    cases addressed : call.unit? with
    | none =>
      obtain ⟨units, requires, _⟩ := perform_document addressed success
      refine ⟨⟨units ▸ ready.keyed.distinct, units ▸ ready.keyed.named⟩, ?_, unbuilt⟩
      rw [requires]
      exact nodup_appendNew ready.requires _
    | some key =>
      obtain ⟨unit, effect, touched⟩ := perform_unit addressed success
      have named := Call.effect?_keyed addressed (ready.keyed.named key) effect
      exact ⟨touched.keyed ready.keyed named, touched.requires ▸ ready.requires, unbuilt⟩

theorem Ready.afterAll {draft : Draft} (ready : draft.Ready) (calls : List Call) :
    (draft.afterAll calls).Ready := by
  induction calls generalizing draft with
  | nil => exact ready
  | cons call rest ih => exact ih (ready.after call)

theorem Runs.keyed {filename : Option String} {calls : List Call} {draft : Draft}
    (run : (empty filename).Runs calls draft) : draft.Keyed := by
  rw [← run.afterAll.1]
  exact ((ready_empty filename).afterAll calls).keyed

/-- A draft that is ready is built exactly if no unit of it breaks a rule. -/
theorem Ready.build_eq_ok_iff {draft : Draft} (ready : draft.Ready) {document : Document} :
    draft.build.2 = .ok document ↔
      (∀ key unit, draft.units.get? key = some unit → unit.plain.flaw? = none) ∧
        document = draft.document := by
  have flawless : draft.document.flaw? = none := by
    rw [Document.flaw?_eq_none_iff]
    exact ⟨ready.keyed.names_eq (List.Subset.refl _) ▸ ready.keyed.distinct, ready.requires⟩
  constructor
  · intro success
    obtain ⟨_, units, _, same⟩ := Draft.build_eq_ok_iff.mp success
    exact ⟨fun key unit found => units (key, unit) (Entries.mem_of_get? found), same⟩
  · rintro ⟨units, same⟩
    exact Draft.build_eq_ok_iff.mpr ⟨ready.unbuilt, fun entry member =>
      units entry.1 entry.2 (Entries.get?_of_mem ready.keyed.distinct member), flawless, same⟩

/-- The unit of a name in the document is the frozen draft of that name. -/
theorem Keyed.unit?_document {draft : Draft} (keyed : draft.Keyed) (key : String) :
    draft.document.unit? key = (draft.units.get? key).map UnitDraft.frozen := by
  have named : ∀ entry ∈ draft.units, entry.2.frozen.qualifiedName = entry.1 := by
    intro entry member
    rw [UnitDraft.frozen_qualifiedName]
    exact keyed.named _ _ (Entries.get?_of_mem keyed.distinct member)
  unfold Document.unit? document
  generalize draft.units = entries at named
  induction entries with
  | nil => rfl
  | cons entry rest ih =>
    obtain ⟨other, unit⟩ := entry
    have first : unit.frozen.qualifiedName = other := named _ List.mem_cons_self
    have later := ih fun entry member => named entry (List.mem_cons_of_mem _ member)
    rw [List.map_cons, List.find?_cons, Entries.get?_cons, first]
    by_cases same : other = key
    · subst same
      simp
    · have different : (other == key) = false := by simpa using same
      rw [different, if_neg (by simpa using Ne.symm same)]
      exact later

/-- Drafts whose units look the same when they are frozen freeze to units that look the same up to their
order. -/
theorem Keyed.perm_map_document {α : Type*} {draft other : Draft} (keyed : draft.Keyed) (others : other.Keyed)
    {view : RubyUnit → α} (alike : ∀ key, (draft.units.get? key).map (fun unit => view unit.frozen) =
      (other.units.get? key).map fun unit => view unit.frozen) :
    (draft.document.units.map view).Perm (other.document.units.map view) := by
  rw [document, document, List.map_map, List.map_map]
  exact Entries.perm_map_view keyed.distinct others.distinct alike

/-- Drafts that hold the same units freeze to the same units up to their order. -/
theorem Keyed.perm_document {draft other : Draft} (keyed : draft.Keyed) (others : other.Keyed)
    (alike : ∀ key, draft.units.get? key = other.units.get? key) :
    draft.document.units.Perm other.document.units :=
  Entries.perm_map_view keyed.distinct others.distinct fun key => by rw [alike key]

/-- A draft whose units are all found in a draft that can be built can be built too. -/
theorem Ready.build_of_part {draft part : Draft} {document : Document} (ready : draft.Ready)
    (partReady : part.Ready) (success : draft.build.2 = .ok document)
    (within : ∀ key unit, part.units.get? key = some unit → draft.units.get? key = some unit) :
    part.build.2 = .ok part.document := by
  obtain ⟨units, _⟩ := ready.build_eq_ok_iff.mp success
  exact partReady.build_eq_ok_iff.mpr
    ⟨fun key unit found => units key unit (within key unit found), rfl⟩

/-- A built document is the one that the calls that were not refused build. Each of its units is the one
that the calls to this unit build alone. Calls that come in another order, but in the same order for each
unit, build the same units up to their order. -/
theorem build_independent {filename : Option String} {calls : List Call} {document : Document}
    (success : ((empty filename).afterAll calls).build.2 = .ok document) :
    ((empty filename).afterAll ((empty filename).accepted calls)).build.2 = .ok document ∧
      (∀ key ∈ ((empty filename).afterAll calls).units.keys, ∃ unit, document.unit? key = some unit ∧
        ∃ alone, ((empty filename).afterAll (callsTo key calls)).build.2 = .ok alone ∧
          alone.unit? key = some unit) ∧
      ∀ other, (∀ key, callsTo key other = callsTo key calls) →
        ∃ reordered, ((empty filename).afterAll other).build.2 = .ok reordered ∧
          reordered.units.Perm document.units := by
  have ready := (ready_empty filename).afterAll
  obtain rfl := build_eq_ok success
  refine ⟨by rw [afterAll_accepted]; exact success, fun key present => ?_, fun other same => ?_⟩
  · -- alone, the unit is what it is among the others, and no other unit is there
    have alone (asked : String) : ((empty filename).afterAll (callsTo key calls)).units.get? asked =
        if asked = key then ((empty filename).afterAll calls).units.get? key else none := by
      rw [get?_afterAll, get?_afterAll, callsTo_callsTo]
      split
      · next same => rw [same]
      · rfl
    obtain ⟨unit, found⟩ : ∃ unit, ((empty filename).afterAll calls).units.get? key = some unit :=
      Option.ne_none_iff_exists'.mp fun absent => Entries.get?_eq_none_iff.mp absent present
    refine ⟨unit.frozen, ?_, _, (ready calls).build_of_part (ready _) success fun asked held there => ?_, ?_⟩
    · rw [(ready calls).keyed.unit?_document, found, Option.map_some]
    · rw [alone] at there
      split at there
      · next same => rw [same, there]
      · cases there
    · rw [(ready _).keyed.unit?_document, alone, if_pos rfl, found, Option.map_some]
  · have alike (key : String) : ((empty filename).afterAll other).units.get? key =
        ((empty filename).afterAll calls).units.get? key := by
      rw [get?_afterAll, get?_afterAll, same]
    refine ⟨_, (ready calls).build_of_part (ready other) success fun key unit found => ?_, ?_⟩
    · rw [← alike, found]
    · exact (ready other).keyed.perm_document (ready calls).keyed alike

/-- Calls to a module and to a class in it, three of them refused: the module cannot become a class, the
alias is taken and the last unit is unknown. -/
def interleaved : List Call :=
  [.addUnit "A" .mod [], .addUnit "B" .cls ["A"], .addUnit "A" .cls [], .addAlias "A::B" "x" "y",
    .addInclude "A" "M", .addAliasMethod "A::B" "x" "z", .addInclude "C" "M"]

/-- The class alone is what it is in the module, and it may as well be opened before the module. -/
theorem build_independent_interleaved :
    ∃ document, ((empty none).afterAll interleaved).build.2 = .ok document ∧
      ((empty none).afterAll ((empty none).accepted interleaved)).build.2 = .ok document ∧
      (∃ unit, document.unit? "A::B" = some unit ∧
        ∃ alone, ((empty none).afterAll [.addUnit "B" .cls ["A"], .addAlias "A::B" "x" "y",
            .addAliasMethod "A::B" "x" "z"]).build.2 = .ok alone ∧ alone.unit? "A::B" = some unit) ∧
      ∃ reordered, ((empty none).afterAll [.addUnit "B" .cls ["A"], .addAlias "A::B" "x" "y",
          .addInclude "C" "M", .addAliasMethod "A::B" "x" "z", .addUnit "A" .mod [], .addUnit "A" .cls [],
          .addInclude "A" "M"]).build.2 = .ok reordered ∧ reordered.units.Perm document.units := by
  obtain ⟨document, success⟩ : ∃ document, ((empty none).afterAll interleaved).build.2 = .ok document :=
    Except.exists_of_isOk (by decide +kernel)
  obtain ⟨accepted, each, any⟩ := build_independent success
  have inner : keyOf "B" ["A"] = "A::B" := by decide
  have outer : keyOf "A" [] = "A" := by decide
  refine ⟨document, success, accepted, ?_, any _ fun key => ?_⟩
  · have addressed : callsTo "A::B" interleaved = [.addUnit "B" .cls ["A"], .addAlias "A::B" "x" "y",
        .addAliasMethod "A::B" "x" "z"] := by
      simp [callsTo, interleaved, Call.unit?, inner, outer]
    rw [← addressed]
    exact each "A::B" (by decide +kernel)
  · simp only [callsTo, interleaved, Call.unit?, inner, outer, List.filter_cons, List.filter_nil]
    by_cases whole : "A" = key
    · subst whole
      simp
    · by_cases part : "A::B" = key
      · subst part
        simp
      · simp [whole, part]

end LiterateRuby.Draft
