import LiterateRuby.Draft
import LiterateRuby.Proofs.Entries
import LiterateRuby.Proofs.Outcome

/-! # What a call does to a draft

A call addresses one unit, or the document as a whole. `Call.effect?` says what a call makes of the
unit that it addresses, from that unit alone, and `perform_unit` that a call which is not refused
does this and nothing else: the other units, their order and the rest of the draft stay. `Call.Updates`
and `Call.Opens` tell the ways in which a call is taken, so what a call keeps of a unit is shown by
cases of these rules.
-/

namespace LiterateRuby.Draft

/-- The key of the unit that a call addresses. -/
def Call.unit? : Call → Option String
  | .addUnit name _ scope => some (keyOf name scope)
  | .ensureHolder name scope => some (keyOf name scope)
  | .setSuperclass unit _ => some unit
  | .addMethod unit _ => some unit
  | .setMethodVisibility unit _ _ _ => some unit
  | .setVisibility unit _ => some unit
  | .enterSingleton unit => some unit
  | .exitSingleton unit => some unit
  | .addConstant unit _ _ => some unit
  | .addClassVariable unit _ _ => some unit
  | .addDeclared unit _ _ => some unit
  | .addAttribute unit _ _ => some unit
  | .addInclude unit _ => some unit
  | .addExtend unit _ => some unit
  | .addAlias unit _ _ => some unit
  | .addAliasMethod unit _ _ => some unit
  | .markNamespaceOnly unit => some unit
  | .addRequire _ => none
  | .setMetadata _ => none

/-- The key that a call opens a unit under. -/
def Call.opened? : Call → Option String
  | .addUnit name _ scope => some (keyOf name scope)
  | .ensureHolder name scope => some (keyOf name scope)
  | _ => none

/-- What a call makes of a unit that is there. -/
def Call.update? (unit : UnitDraft) : Call → Option UnitDraft
  | .addUnit name kind _ =>
    if name = "" then none
    else if unit.holder then some { unit with kind, holder := false }
    else if unit.kind = kind then some unit
    else none
  | .ensureHolder _ _ => some unit
  | .setSuperclass _ superclass =>
    match unit.kind with
    | .cls => some { unit with superclass := some superclass }
    | .mod => some unit
  | .addMethod _ entry =>
    match (entry.inUnit unit).checked with
    | .ok method => some { unit with methods := unit.methods ++ [method] }
    | .error _ => none
  | .setMethodVisibility _ name visibility binding =>
    let update (method : Method) : Method :=
      if isMethod name binding method then { method with visibility } else method
    some { unit with methods := unit.methods.map update }
  | .setVisibility _ visibility => some { unit with visibility }
  | .enterSingleton _ => some { unit with inSingleton := true, visibility := .pub }
  | .exitSingleton _ => some { unit with inSingleton := false }
  | .addConstant _ name value =>
    if name = "" then none else some { unit with constants := unit.constants.put name value }
  | .addClassVariable _ name value =>
    if (bareVariable name).isEmpty then none
    else
      let full := String.ofList ('@' :: '@' :: bareVariable name)
      some { unit with classVariables := unit.classVariables.put full value }
  | .addDeclared _ accessor names =>
    match accessor with
    | .reader => some { unit with readerNames := appendNew unit.readerNames names }
    | .writer => some { unit with writerNames := appendNew unit.writerNames names }
    | .both => some { unit with accessorNames := appendNew unit.accessorNames names }
  | .addAttribute _ accessor names =>
    match Attribute.checked accessor names with
    | .ok declaration => some { unit with attributes := unit.attributes ++ [declaration] }
    | .error _ => none
  | .addInclude _ name => some { unit with included := appendOnce unit.included name }
  | .addExtend _ name => some { unit with extended := appendOnce unit.extended name }
  | .addAlias _ new old =>
    if unit.aliasMethods.has new then none else some { unit with aliases := unit.aliases.put new old }
  | .addAliasMethod _ new old =>
    if unit.aliases.has new then none
    else some { unit with aliasMethods := unit.aliasMethods.put new old }
  | .markNamespaceOnly _ =>
    match unit.kind with
    | .cls => some unit
    | .mod => some { unit with namespaceOnly := true }
  | .addRequire _ => some unit
  | .setMetadata _ => some unit

def Call.fresh? : Call → Option UnitDraft
  | .addUnit name kind scope => if name = "" then none else some { name, kind, scope }
  | .ensureHolder name scope => some { name, kind := .mod, scope, holder := true }
  | _ => none

/-- What a call that is taken makes of a unit that is there, one rule for each way in which a call is
taken. -/
inductive Call.Updates (unit : UnitDraft) : Call → UnitDraft → Prop
  | adopted {name : String} {kind : RubyUnit.Kind} {scope : List String} (named : name ≠ "")
    (holds : unit.holder = true) : Updates unit (.addUnit name kind scope) { unit with kind, holder := false }
  | reopened {name : String} {kind : RubyUnit.Kind} {scope : List String} (named : name ≠ "")
    (explicit : unit.holder = false) (same : unit.kind = kind) : Updates unit (.addUnit name kind scope) unit
  | held {name : String} {scope : List String} : Updates unit (.ensureHolder name scope) unit
  | inherited {key superclass : String} (nature : unit.kind = .cls) :
    Updates unit (.setSuperclass key superclass) { unit with superclass := some superclass }
  | uninherited {key superclass : String} (nature : unit.kind = .mod) :
    Updates unit (.setSuperclass key superclass) unit
  | method {key : String} {entry : MethodEntry} (flawless : (entry.inUnit unit).flaw? = none) :
    Updates unit (.addMethod key entry) { unit with methods := unit.methods ++ [entry.inUnit unit] }
  | retargeted {key name : String} {visibility : Visibility} {binding : Binding} :
    Updates unit (.setMethodVisibility key name visibility binding)
      { unit with
        methods := unit.methods.map fun method =>
          if isMethod name binding method then { method with visibility } else method }
  | visibility {key : String} {visibility : Visibility} :
    Updates unit (.setVisibility key visibility) { unit with visibility }
  | entered {key : String} :
    Updates unit (.enterSingleton key) { unit with inSingleton := true, visibility := .pub }
  | left {key : String} : Updates unit (.exitSingleton key) { unit with inSingleton := false }
  | constant {key name : String} {value : Constant} (named : name ≠ "") :
    Updates unit (.addConstant key name value) { unit with constants := unit.constants.put name value }
  | classVariable {key name : String} {value : Constant} (named : bareVariable name ≠ []) :
    Updates unit (.addClassVariable key name value)
      { unit with
        classVariables :=
          unit.classVariables.put (String.ofList ('@' :: '@' :: bareVariable name)) value }
  | readers {key : String} {names : List String} :
    Updates unit (.addDeclared key .reader names)
      { unit with readerNames := appendNew unit.readerNames names }
  | writers {key : String} {names : List String} :
    Updates unit (.addDeclared key .writer names)
      { unit with writerNames := appendNew unit.writerNames names }
  | accessors {key : String} {names : List String} :
    Updates unit (.addDeclared key .both names)
      { unit with accessorNames := appendNew unit.accessorNames names }
  | declared {key : String} {accessor : Accessor} {names : List String} {declaration : Attribute}
    (valid : Attribute.checked accessor names = .ok declaration) :
    Updates unit (.addAttribute key accessor names)
      { unit with attributes := unit.attributes ++ [declaration] }
  | included {key name : String} :
    Updates unit (.addInclude key name) { unit with included := appendOnce unit.included name }
  | extended {key name : String} :
    Updates unit (.addExtend key name) { unit with extended := appendOnce unit.extended name }
  | aliased {key new old : String} (free : new ∉ unit.aliasMethods.keys) :
    Updates unit (.addAlias key new old) { unit with aliases := unit.aliases.put new old }
  | aliasedMethod {key new old : String} (free : new ∉ unit.aliases.keys) :
    Updates unit (.addAliasMethod key new old) { unit with aliasMethods := unit.aliasMethods.put new old }
  | marked {key : String} (nature : unit.kind = .mod) :
    Updates unit (.markNamespaceOnly key) { unit with namespaceOnly := true }
  | unmarked {key : String} (nature : unit.kind = .cls) : Updates unit (.markNamespaceOnly key) unit
  | required {name : String} : Updates unit (.addRequire name) unit
  | described {metadata : Option Metadata} : Updates unit (.setMetadata metadata) unit

theorem Call.updates_of_update? {call : Call} {unit next : UnitDraft} (updated : call.update? unit = some next) :
    call.Updates unit next := by
  cases call with
  | addUnit name kind scope =>
    simp only [update?] at updated
    split_ifs at updated with unnamed holds same
    · cases updated
      exact .adopted unnamed holds
    · cases updated
      exact .reopened unnamed (Bool.eq_false_iff.mpr holds) same
  | setSuperclass key superclass =>
    simp only [update?] at updated
    split at updated
    · next nature =>
      cases updated
      exact .inherited nature
    · next nature =>
      cases updated
      exact .uninherited nature
  | addMethod key entry =>
    simp only [update?] at updated
    split at updated
    · next method valid =>
      obtain ⟨flawless, rfl⟩ := Method.checked_eq_ok_iff.mp valid
      cases updated
      exact .method flawless
    · cases updated
  | addConstant key name value =>
    simp only [update?] at updated
    split_ifs at updated with unnamed
    cases updated
    exact .constant unnamed
  | addClassVariable key name value =>
    simp only [update?] at updated
    split_ifs at updated with unnamed
    cases updated
    exact .classVariable (by simpa using unnamed)
  | addDeclared key accessor names =>
    cases accessor <;> cases updated
    · exact .readers
    · exact .writers
    · exact .accessors
  | addAttribute key accessor names =>
    simp only [update?] at updated
    split at updated
    · next declaration valid =>
      cases updated
      exact .declared valid
    · cases updated
  | addAlias key new old =>
    simp only [update?] at updated
    split_ifs at updated with taken
    cases updated
    exact .aliased (by simpa [Entries.has_eq_true_iff] using taken)
  | addAliasMethod key new old =>
    simp only [update?] at updated
    split_ifs at updated with taken
    cases updated
    exact .aliasedMethod (by simpa [Entries.has_eq_true_iff] using taken)
  | markNamespaceOnly key =>
    simp only [update?] at updated
    split at updated
    · next nature =>
      cases updated
      exact .unmarked nature
    · next nature =>
      cases updated
      exact .marked nature
  | _ => cases updated; constructor

private theorem Call.Updates.update? {call : Call} {unit next : UnitDraft} (updates : call.Updates unit next) :
    call.update? unit = some next := by
  cases updates with
  | adopted named holds => exact (if_neg named).trans (if_pos holds)
  | reopened named explicit same =>
    exact (if_neg named).trans ((if_neg (Bool.eq_false_iff.mp explicit)).trans (if_pos same))
  | inherited nature | uninherited nature | marked nature | unmarked nature => simp only [Call.update?, nature]
  | method flawless => simp only [Call.update?, Method.checked_eq_ok_iff.mpr ⟨flawless, rfl⟩]
  | constant named => exact if_neg named
  | classVariable named => exact if_neg (by simpa using named)
  | declared valid => simp only [Call.update?, valid]
  | aliased free | aliasedMethod free => exact if_neg (by simpa [Entries.has_eq_true_iff] using free)
  | _ => rfl

theorem Call.update?_eq_some_iff {call : Call} {unit next : UnitDraft} :
    call.update? unit = some next ↔ call.Updates unit next :=
  ⟨Call.updates_of_update?, Call.Updates.update?⟩

/-- The unit that a call opens: one that is defined, or one that only holds others. -/
inductive Call.Opens : Call → UnitDraft → Prop
  | unit {name : String} {kind : RubyUnit.Kind} {scope : List String} (named : name ≠ "") :
    Opens (.addUnit name kind scope) { name, kind, scope }
  | holder {name : String} {scope : List String} :
    Opens (.ensureHolder name scope) { name, kind := .mod, scope, holder := true }

theorem Call.opens_of_fresh? {call : Call} {unit : UnitDraft} (fresh : call.fresh? = some unit) :
    call.Opens unit := by
  cases call with
  | addUnit name kind scope =>
    simp only [fresh?] at fresh
    split_ifs at fresh with unnamed
    cases fresh
    exact .unit unnamed
  | ensureHolder name scope =>
    cases fresh
    exact .holder
  | _ => cases fresh

theorem Call.fresh?_eq_some_iff {call : Call} {unit : UnitDraft} :
    call.fresh? = some unit ↔ call.Opens unit := by
  refine ⟨Call.opens_of_fresh?, fun opens => ?_⟩
  cases opens with
  | unit named => exact if_neg named
  | holder => rfl

/-- What a call makes of the unit that it addresses, which may not be there yet. -/
def Call.effect? (call : Call) : Option UnitDraft → Option UnitDraft
  | some unit => call.update? unit
  | none => call.fresh?

/-- A draft differs from another one in one unit only, which may be new. -/
structure Touched (key : String) (unit : UnitDraft) (draft next : Draft) : Prop where
  keys : next.units.keys =
    if key ∈ draft.units.keys then draft.units.keys else draft.units.keys ++ [key]
  found : ∀ asked, next.units.get? asked = if asked == key then some unit else draft.units.get? asked
  requires : next.requires = draft.requires
  metadata : next.metadata = draft.metadata
  filename : next.filename = draft.filename
  built : next.built = draft.built

theorem unit_eq_ok_iff {draft : Draft} {key : String} {unit : UnitDraft} :
    draft.unit key = .ok unit ↔ draft.units.get? key = some unit := by
  unfold Draft.unit
  cases draft.units.get? key <;> simp

theorem change_eq_ok_iff {draft next : Draft} {key : String} {update : UnitDraft → UnitDraft} :
    draft.change key update = .ok next ↔
      ∃ unit, draft.units.get? key = some unit ∧
        next = { draft with units := draft.units.adjust key update } := by
  unfold change
  rw [Except.bind_eq_ok_iff]
  simp only [unit_eq_ok_iff, pure, Except.pure, Except.ok.injEq, @eq_comm _ next]

/-- Putting a new unit last touches that unit only. -/
theorem touched_put {draft : Draft} {key : String} (unit : UnitDraft) :
    Touched key unit draft { draft with units := draft.units.put key unit } where
  keys := Entries.keys_put draft.units key unit
  found := Entries.get?_put draft.units key unit
  requires := rfl
  metadata := rfl
  filename := rfl
  built := rfl

/-- Changing a unit that is there touches that unit only. -/
theorem touched_adjust {draft : Draft} {key : String} {unit : UnitDraft}
    (present : draft.units.get? key = some unit) (update : UnitDraft → UnitDraft) :
    Touched key (update unit) draft { draft with units := draft.units.adjust key update } where
  keys := by
    rw [Entries.keys_adjust, if_pos (Entries.mem_keys_of_get? present)]
  found asked := by
    rw [Entries.get?_adjust]
    by_cases same : asked = key
    · subst same
      simp [present]
    · simp [same]
  requires := rfl
  metadata := rfl
  filename := rfl
  built := rfl

/-- A draft that stays as it is counts as touched in any of its units. -/
theorem touched_self {draft : Draft} {key : String} {unit : UnitDraft}
    (present : draft.units.get? key = some unit) : Touched key unit draft draft where
  keys := by rw [if_pos (Entries.mem_keys_of_get? present)]
  found asked := by
    by_cases same : asked = key
    · subst same
      simp [present]
    · simp [same]
  requires := rfl
  metadata := rfl
  filename := rfl
  built := rfl

theorem Touched.get?_self {key : String} {unit : UnitDraft} {draft next : Draft}
    (touched : Touched key unit draft next) : next.units.get? key = some unit := by
  rw [touched.found]
  simp

theorem Touched.get?_of_ne {key asked : String} {unit : UnitDraft} {draft next : Draft}
    (touched : Touched key unit draft next) (other : asked ≠ key) :
    next.units.get? asked = draft.units.get? asked := by
  rw [touched.found, if_neg (by simpa using other)]

/-- A unit that is touched is still kept once. -/
theorem Touched.distinct {key : String} {unit : UnitDraft} {draft next : Draft}
    (touched : Touched key unit draft next) (once : draft.units.keys.Nodup) : next.units.keys.Nodup := by
  rw [touched.keys]
  split
  · exact once
  · next fresh =>
    refine List.nodup_append.mpr ⟨once, List.pairwise_singleton _ key, ?_⟩
    rintro other member _ single rfl
    exact fresh (List.mem_singleton.mp single ▸ member)

/-- A change that succeeds touches its unit. -/
theorem touched_of_change {draft next : Draft} {key : String} {update : UnitDraft → UnitDraft}
    (success : draft.change key update = .ok next) :
    ∃ unit, draft.units.get? key = some unit ∧ Touched key (update unit) draft next := by
  obtain ⟨unit, present, rfl⟩ := change_eq_ok_iff.mp success
  exact ⟨unit, present, touched_adjust present update⟩

/-- A call whose work is a change touches its unit. -/
theorem touches_of_change {draft next : Draft} {key : String} {update : UnitDraft → UnitDraft} {call : Call}
    (updates : ∀ unit, draft.units.get? key = some unit → call.update? unit = some (update unit))
    (success : draft.change key update = .ok next) :
    ∃ unit, call.effect? (draft.units.get? key) = some unit ∧ Touched key unit draft next := by
  obtain ⟨unit, present, touched⟩ := touched_of_change success
  exact ⟨update unit, by rw [present]; exact updates unit present, touched⟩

/-- A call that only answers that it is done. -/
theorem result_done {result : Except Refusal Draft} {next : Draft} {reply : Reply}
    (success : ((do return (← result, .done)) : Outcome Refusal (Draft × Reply)).result =
      .ok (next, reply)) : result = .ok next := by
  rw [Outcome.bind_result_eq_ok_iff] at success
  obtain ⟨changed, success, same⟩ := success
  simp only [Outcome.result_pure, Except.ok.injEq, Prod.mk.injEq] at same
  rw [← same.1]
  exact success

theorem addUnit_touches {draft next : Draft} {name key : String} {kind : RubyUnit.Kind}
    {scope : List String} (success : draft.addUnit name kind scope = .ok (next, key)) :
    key = keyOf name scope ∧ ∃ unit,
      (Call.addUnit name kind scope).effect? (draft.units.get? key) = some unit ∧
        Touched key unit draft next := by
  unfold addUnit at success
  dsimp only at success
  split at success
  · cases success
  · next named =>
    split at success
    · next absent =>
      cases success
      exact ⟨rfl, _, by simp [absent, Call.effect?, Call.fresh?, named], touched_put _⟩
    · next unit present =>
      split at success
      · next holds =>
        cases success
        refine ⟨rfl, _, ?_, touched_adjust present _⟩
        simp [present, Call.effect?, Call.update?, named, holds]
      · next explicit =>
        split at success
        · next same =>
          cases success
          refine ⟨rfl, _, ?_, touched_self present⟩
          simp [present, Call.effect?, Call.update?, named, explicit, same]
        · cases success

private theorem ensureHolder_touches (draft : Draft) (name : String) (scope : List String) :
    ∃ unit, (Call.ensureHolder name scope).effect? (draft.units.get? (keyOf name scope)) = some unit ∧
      Touched (keyOf name scope) unit draft (draft.ensureHolder name scope).1 := by
  unfold ensureHolder
  cases present : draft.units.get? (keyOf name scope) with
  | some unit =>
    rw [if_pos (Entries.has_eq_true_iff.mpr (Entries.mem_keys_of_get? present))]
    exact ⟨unit, rfl, touched_self present⟩
  | none =>
    rw [if_neg (by
      rw [Entries.has_eq_true_iff]
      exact Entries.get?_eq_none_iff.mp present)]
    exact ⟨_, rfl, touched_put _⟩

private theorem setSuperclass_touches {draft next : Draft} {key superclass : String}
    (success : (draft.setSuperclass key superclass).result = .ok next) :
    ∃ unit, (Call.setSuperclass key superclass).effect? (draft.units.get? key) = some unit ∧
      Touched key unit draft next := by
  unfold setSuperclass at success
  obtain ⟨unit, present, success⟩ := Outcome.bind_result_eq_ok_iff.mp success
  have present : draft.units.get? key = some unit := unit_eq_ok_iff.mp present
  cases nature : unit.kind with
  | cls =>
    rw [nature] at success
    refine touches_of_change (fun other again => ?_) success
    cases present.symm.trans again
    simp [Call.update?, nature]
  | mod =>
    rw [nature] at success
    simp only [Outcome.result_bind, Outcome.result_warn, Except.ok_bind, Outcome.result_pure,
      Except.ok.injEq] at success
    rw [← success]
    exact ⟨_, by simp [present, Call.effect?, Call.update?, nature], touched_self present⟩

private theorem addMethod_touches {draft next : Draft} {key : String} {entry : MethodEntry}
    (success : draft.addMethod key entry = .ok next) :
    ∃ unit, (Call.addMethod key entry).effect? (draft.units.get? key) = some unit ∧
      Touched key unit draft next := by
  obtain ⟨unit, present, success⟩ := Except.bind_eq_ok_iff.mp success
  have present : draft.units.get? key = some unit := unit_eq_ok_iff.mp present
  cases valid : (entry.inUnit unit).checked with
  | error flaw =>
    rw [valid] at success
    cases success
  | ok method =>
    rw [valid] at success
    refine touches_of_change (fun other again => ?_) success
    cases present.symm.trans again
    simp [Call.update?, valid]

/-- A call that is not refused does to the unit that it addresses what its effect says, and nothing to
any other unit. -/
theorem perform_unit {draft next : Draft} {call : Call} {key : String} {reply : Reply}
    (addressed : call.unit? = some key) (success : (draft.perform call).result = .ok (next, reply)) :
    ∃ unit, call.effect? (draft.units.get? key) = some unit ∧ Touched key unit draft next := by
  cases call with
  | addUnit name kind scope =>
    cases addressed
    obtain ⟨⟨changed, opened⟩, ran, same⟩ := Outcome.bind_result_eq_ok_iff.mp success
    cases same
    obtain ⟨rfl, unit, effect, touched⟩ := addUnit_touches ran
    exact ⟨unit, effect, touched⟩
  | ensureHolder name scope =>
    cases addressed
    cases success
    exact ensureHolder_touches draft name scope
  | setSuperclass unit superclass =>
    cases addressed
    obtain ⟨changed, ran, same⟩ := Outcome.bind_result_eq_ok_iff.mp success
    cases same
    exact setSuperclass_touches ran
  | addMethod unit entry =>
    cases addressed
    exact addMethod_touches (result_done success)
  | setMethodVisibility unit name visibility binding =>
    cases addressed
    obtain ⟨⟨changed, found⟩, ran, same⟩ := Outcome.bind_result_eq_ok_iff.mp success
    cases same
    obtain ⟨held, present, updated⟩ := Except.bind_eq_ok_iff.mp ran
    obtain ⟨changed, change, same⟩ := Except.bind_eq_ok_iff.mp updated
    cases same
    exact touches_of_change (fun _ _ => rfl) change
  | addConstant unit name value =>
    cases addressed
    have success := result_done success
    unfold addConstant at success
    split at success
    · cases success
    · next named => exact touches_of_change (fun _ _ => if_neg named) success
  | addClassVariable unit name value =>
    cases addressed
    have success := result_done success
    unfold addClassVariable at success
    split at success
    · cases success
    · next named => exact touches_of_change (fun _ _ => if_neg named) success
  | addAttribute unit accessor names =>
    cases addressed
    have success := result_done success
    unfold addAttribute at success
    split at success
    · next declaration valid => exact touches_of_change (fun _ _ => by simp [Call.update?, valid]) success
    · cases success
  | addAlias unit new old =>
    cases addressed
    obtain ⟨held, present, success⟩ := Except.bind_eq_ok_iff.mp (result_done success)
    split at success
    · cases success
    · next free =>
      refine touches_of_change (fun other again => ?_) success
      cases (unit_eq_ok_iff.mp present).symm.trans again
      exact if_neg free
  | addAliasMethod unit new old =>
    cases addressed
    obtain ⟨held, present, success⟩ := Except.bind_eq_ok_iff.mp (result_done success)
    split at success
    · cases success
    · next free =>
      refine touches_of_change (fun other again => ?_) success
      cases (unit_eq_ok_iff.mp present).symm.trans again
      exact if_neg free
  | addDeclared unit accessor names =>
    cases addressed
    exact touches_of_change (fun _ _ => by cases accessor <;> rfl) (result_done success)
  | markNamespaceOnly unit =>
    cases addressed
    exact touches_of_change (fun held _ => by cases kind : held.kind <;> simp [Call.update?, kind])
      (result_done success)
  | addRequire name => cases addressed
  | setMetadata metadata => cases addressed
  | setVisibility | enterSingleton | exitSingleton | addInclude | addExtend =>
    cases addressed
    exact touches_of_change (fun _ _ => rfl) (result_done success)

theorem change_of_present {draft : Draft} {key : String} {unit : UnitDraft}
    (present : draft.units.get? key = some unit) (update : UnitDraft → UnitDraft) :
    draft.change key update = .ok { draft with units := draft.units.adjust key update } :=
  change_eq_ok_iff.mpr ⟨unit, present, rfl⟩

private theorem addUnit_of_effect {draft : Draft} {name : String} {kind : RubyUnit.Kind} {scope : List String}
    {unit : UnitDraft}
    (effect : (Call.addUnit name kind scope).effect? (draft.units.get? (keyOf name scope)) = some unit) :
    ∃ next, draft.addUnit name kind scope = .ok (next, keyOf name scope) := by
  unfold addUnit
  dsimp only
  cases present : draft.units.get? (keyOf name scope) with
  | none =>
    rw [present] at effect
    have effect : (Call.addUnit name kind scope).fresh? = some unit := effect
    cases Call.opens_of_fresh? effect with
    | unit named => exact ⟨_, if_neg named⟩
  | some held =>
    rw [present] at effect
    have effect : (Call.addUnit name kind scope).update? held = some unit := effect
    cases Call.updates_of_update? effect with
    | adopted named holds => exact ⟨_, by rw [if_neg named]; exact if_pos holds⟩
    | reopened named explicit same => exact ⟨_, by simp [named, explicit, same]; rfl⟩

private theorem perform_addUnit {draft next : Draft} {name key : String} {kind : RubyUnit.Kind}
    {scope : List String}
    (opened : draft.addUnit name kind scope = .ok (next, key)) :
    (draft.perform (.addUnit name kind scope)).result = .ok (next, .key key) := by
  simp [perform, opened]

/-- A call that makes something of a unit that is there is not refused. -/
theorem perform_of_update {draft : Draft} {call : Call} {key : String} {held unit : UnitDraft}
    (addressed : call.unit? = some key) (present : draft.units.get? key = some held)
    (updated : call.update? held = some unit) :
    ∃ next reply, (draft.perform call).result = .ok (next, reply) := by
  have found := unit_eq_ok_iff.mpr present
  have changes := change_of_present present
  cases Call.updates_of_update? updated with
  | adopted | reopened =>
    cases addressed
    obtain ⟨next, opened⟩ := addUnit_of_effect (by rw [present]; exact updated)
    exact ⟨next, _, perform_addUnit opened⟩
  | held => exact ⟨_, _, rfl⟩
  | required | described => cases addressed
  | inherited nature | uninherited nature =>
    cases addressed
    exact ⟨_, .done, by simp [perform, setSuperclass, found, changes, nature]; rfl⟩
  | @method _ entry flawless =>
    cases addressed
    have valid := Method.checked_eq_ok_iff.mpr ⟨flawless, rfl⟩
    exact ⟨_, .done, by simp [perform, addMethod, found, changes, valid]; rfl⟩
  | @retargeted _ name _ binding =>
    cases addressed
    exact ⟨_, .found (held.methods.any (isMethod name binding)), by
      simp [perform, setMethodVisibility, found, changes]; rfl⟩
  | constant named =>
    cases addressed
    exact ⟨_, .done, by simp [perform, addConstant, changes, named]; rfl⟩
  | classVariable named =>
    cases addressed
    exact ⟨_, .done, by simp [perform, addClassVariable, changes, named]; rfl⟩
  | declared valid =>
    cases addressed
    exact ⟨_, .done, by simp [perform, addAttribute, changes, valid]; rfl⟩
  | aliased free =>
    cases addressed
    have untaken := Bool.eq_false_iff.mpr (mt Entries.has_eq_true_iff.mp free)
    exact ⟨_, .done, by simp [perform, addAlias, found, changes, untaken]; rfl⟩
  | aliasedMethod free =>
    cases addressed
    have untaken := Bool.eq_false_iff.mpr (mt Entries.has_eq_true_iff.mp free)
    exact ⟨_, .done, by simp [perform, addAliasMethod, found, changes, untaken]; rfl⟩
  | visibility | entered | left | readers | writers | accessors | included | extended | marked | unmarked =>
    cases addressed
    exact ⟨_, .done, by simp [perform, setVisibility, enterSingleton, exitSingleton, addDeclared,
      addInclude, addExtend, markNamespaceOnly, changes]; rfl⟩

/-- A call is not refused exactly if it makes something of the unit that it addresses. -/
theorem exists_perform_iff {draft : Draft} {call : Call} {key : String}
    (addressed : call.unit? = some key) :
    (∃ next reply, (draft.perform call).result = .ok (next, reply)) ↔
      ∃ unit, call.effect? (draft.units.get? key) = some unit := by
  constructor
  · rintro ⟨next, reply, success⟩
    obtain ⟨unit, effect, _⟩ := perform_unit addressed success
    exact ⟨unit, effect⟩
  · rintro ⟨unit, effect⟩
    cases present : draft.units.get? key with
    | some held =>
      rw [present] at effect
      exact perform_of_update addressed present effect
    | none =>
      rw [present] at effect
      cases Call.opens_of_fresh? effect with
      | unit named =>
        cases addressed
        obtain ⟨next, opened⟩ := addUnit_of_effect (by rw [present]; exact effect)
        exact ⟨next, _, perform_addUnit opened⟩
      | holder => exact ⟨_, _, rfl⟩

end LiterateRuby.Draft
