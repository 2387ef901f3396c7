import LiterateRuby.Proofs.Draft.Effect
import LiterateRuby.Proofs.FirstSeen
import LiterateRuby.Proofs.RubyUnit

/-! # Drafts that can be frozen

A unit draft is sound if it is kept under its own qualified name and freezing it breaks no rule. Every
call that names things properly keeps a draft sound, whether it is refused or not, and a sound draft
always freezes.
-/

namespace LiterateRuby

/-- A unit name without empty segments, in a scope without empty segments. -/
structure ProperName (name : String) (scope : List String) : Prop where
  named : name ≠ ""
  segments : "" ∉ Text.scopeSegments name
  scope : "" ∉ scope

/-- A call that gives no empty name to a unit, to a segment or to a superclass. -/
def Draft.Call.Proper : Draft.Call → Prop
  | .addUnit name _ scope => ProperName name scope
  | .ensureHolder name scope => ProperName name scope
  | .setSuperclass _ superclass => superclass ≠ ""
  | _ => True

/-- What holds of the draft of a unit at all times. -/
structure UnitDraft.Sound (key : String) (unit : UnitDraft) : Prop where
  keyed : Draft.keyOf unit.name unit.scope = key
  proper : ProperName unit.name unit.scope
  superclass : unit.superclass ≠ some ""
  methods : ∀ method ∈ unit.methods, method.flaw? = none
  classVariables : ∀ name ∈ unit.classVariables.keys, ['@', '@'] <+: name.toList
  apart : ∀ name ∈ unit.aliases.keys, name ∉ unit.aliasMethods.keys

/-- Every unit of a draft is kept once, under its own name. -/
structure Draft.Keyed (draft : Draft) : Prop where
  distinct : draft.units.keys.Nodup
  named : ∀ key unit, draft.units.get? key = some unit → Draft.keyOf unit.name unit.scope = key

/-- What holds of a draft at all times. -/
structure Draft.Sound (draft : Draft) : Prop where
  distinct : draft.units.keys.Nodup
  units : ∀ key unit, draft.units.get? key = some unit → unit.Sound key
  requires : draft.requires.Nodup

namespace Draft

private theorem Call.Proper.fresh_sound {call : Call} {key : String} {unit : UnitDraft}
    (proper : call.Proper) (addressed : call.unit? = some key) (fresh : call.fresh? = some unit) :
    unit.Sound key := by
  cases Call.opens_of_fresh? fresh with
  | unit named =>
    cases addressed
    exact ⟨rfl, proper, by simp, by simp, by simp, by simp⟩
  | holder =>
    cases addressed
    exact ⟨rfl, proper, by simp, by simp, by simp, by simp⟩

/-- A new alias is free of the names of the other form, and so are the old ones. -/
theorem apart_put {entries others : Entries String String} {name : String} (value : String)
    (apart : ∀ held ∈ entries.keys, held ∉ others.keys) (free : name ∉ others.keys) :
    ∀ held ∈ (entries.put name value).keys, held ∉ others.keys := by
  intro held member
  rcases Entries.mem_keys_put.mp member with old | rfl
  · exact apart held old
  · exact free

private theorem marked_put {entries : Entries String Constant} (bare : List Char) (value : Constant)
    (marked : ∀ name ∈ entries.keys, ['@', '@'] <+: name.toList) :
    ∀ name ∈ (entries.put (String.ofList ('@' :: '@' :: bare)) value).keys,
      ['@', '@'] <+: name.toList := by
  intro name member
  rcases Entries.mem_keys_put.mp member with old | rfl
  · exact marked name old
  · rw [String.toList_ofList]
    exact ⟨bare, rfl⟩

private theorem flaw?_retarget {name : String} {visibility : Visibility} {binding : Binding} {method : Method}
    (sound : method.flaw? = none) :
    (if isMethod name binding method then { method with visibility } else method).flaw? = none := by
  split
  · exact sound
  · exact sound

/-- Each call changes at most one field of the unit that a rule speaks of. -/
theorem Call.Proper.update_sound {call : Call} {key : String} {unit next : UnitDraft}
    (proper : call.Proper) (sound : unit.Sound key) (updated : call.update? unit = some next) :
    next.Sound key := by
  cases Call.updates_of_update? updated with
  | inherited nature => exact { sound with superclass := fun same => proper (Option.some.inj same) }
  | method flawless =>
    refine { sound with methods := fun other member => ?_ }
    rcases List.mem_append.mp member with old | new
    · exact sound.methods other old
    · rw [List.mem_singleton.mp new]
      exact flawless
  | retargeted =>
    refine { sound with methods := fun other member => ?_ }
    obtain ⟨method, old, rfl⟩ := List.mem_map.mp member
    exact flaw?_retarget (sound.methods method old)
  | classVariable named => exact { sound with classVariables := marked_put _ _ sound.classVariables }
  | @aliased _ new old free => exact { sound with apart := apart_put old sound.apart free }
  | @aliasedMethod _ new old free =>
    have apart := apart_put old (fun name method plain => sound.apart name plain method) free
    exact { sound with apart := fun name plain method => apart name method plain }
  | _ => exact { sound with }

theorem Call.Proper.effect_sound {call : Call} {key : String} {slot : Option UnitDraft}
    {unit : UnitDraft} (proper : call.Proper) (addressed : call.unit? = some key)
    (sound : ∀ held, slot = some held → held.Sound key) (effect : call.effect? slot = some unit) :
    unit.Sound key := by
  cases slot with
  | none => exact proper.fresh_sound addressed effect
  | some held => exact proper.update_sound (sound held rfl) effect

theorem Touched.sound {key : String} {unit : UnitDraft} {draft next : Draft}
    (touched : Touched key unit draft next) (sound : draft.Sound) (unitSound : unit.Sound key) :
    next.Sound where
  distinct := touched.distinct sound.distinct
  units asked held found := by
    by_cases same : asked = key
    · subst same
      rw [touched.get?_self] at found
      cases found
      exact unitSound
    · rw [touched.get?_of_ne same] at found
      exact sound.units asked held found
  requires := by
    rw [touched.requires]
    exact sound.requires

def Call.required : Call → List String
  | .addRequire name => [name]
  | _ => []

/-- A call that addresses no unit leaves all units as they are. -/
theorem perform_document {draft next : Draft} {call : Call} {reply : Reply}
    (addressed : call.unit? = none) (success : (draft.perform call).result = .ok (next, reply)) :
    next.units = draft.units ∧ next.requires = appendNew draft.requires call.required ∧
      next.built = draft.built := by
  cases call with
  | addRequire name => cases success; exact ⟨rfl, rfl, rfl⟩
  | setMetadata metadata =>
    cases metadata with
    | none => cases success
    | some metadata => cases success; exact ⟨rfl, rfl, rfl⟩
  | _ => cases addressed

/-! ## Freezing -/

end Draft

namespace UnitDraft

@[simp] theorem kind_plain (unit : UnitDraft) : unit.plain.kind = unit.kind := by
  unfold plain RubyUnit.kind
  cases unit.kind <;> rfl

@[simp] theorem isNamespaceOnly_plain (unit : UnitDraft) : unit.plain.isNamespaceOnly = false := by
  unfold plain RubyUnit.isNamespaceOnly
  cases unit.kind <;> rfl

theorem superclass?_plain (unit : UnitDraft) :
    unit.plain.superclass? = if unit.kind = .cls then unit.superclass.filter (· != "") else none := by
  unfold plain RubyUnit.superclass?
  cases unit.kind <;> rfl

def frozen (unit : UnitDraft) : RubyUnit :=
  if unit.isNamespace then { unit.plain with nature := .mod true } else unit.plain

/-- Frozen or not, a unit holds the same but for its nature. -/
theorem frozen_eq (unit : UnitDraft) : ∃ nature, unit.frozen = { unit.plain with nature } := by
  unfold frozen
  split
  · exact ⟨_, rfl⟩
  · exact ⟨unit.plain.nature, rfl⟩

theorem frozen_path (unit : UnitDraft) : unit.frozen.path = unit.scope ++ [unit.name] := by
  obtain ⟨nature, same⟩ := unit.frozen_eq
  rw [same]
  rfl

theorem frozen_qualifiedName (unit : UnitDraft) :
    unit.frozen.qualifiedName = Draft.keyOf unit.name unit.scope := by
  rw [RubyUnit.qualifiedName, frozen_path]
  rfl

/-- Only the draft of a mere namespace is frozen as one. -/
theorem isNamespaceOnly_frozen (unit : UnitDraft) : unit.frozen.isNamespaceOnly = unit.isNamespace := by
  cases mere : unit.isNamespace with
  | true => rw [frozen, if_pos mere, RubyUnit.isNamespaceOnly]
  | false =>
    rw [frozen, if_neg (Bool.eq_false_iff.mp mere), isNamespaceOnly_plain]

theorem isNamespace_of_frozen {unit : UnitDraft} (mere : unit.frozen.isNamespaceOnly = true) :
    unit.isNamespace = true := by
  rwa [← isNamespaceOnly_frozen]

theorem hasOwnContent_of_frozen {unit : UnitDraft} (mere : unit.frozen.isNamespaceOnly = true) :
    unit.frozen.hasOwnContent = false := by
  have namespaceDraft := isNamespace_of_frozen mere
  rw [frozen, if_pos namespaceDraft]
  simp only [isNamespace, Bool.and_eq_true, Bool.not_eq_true'] at namespaceDraft
  exact namespaceDraft.2

private theorem Sound.plain_flaw? {key : String} {unit : UnitDraft} (sound : unit.Sound key) :
    unit.plain.flaw? = none := by
  refine RubyUnit.flaw?_eq_none_iff.mpr ⟨⟨sound.proper.named, sound.proper.segments,
    sound.proper.scope⟩, sound.classVariables, sound.apart, ?_⟩
  unfold RubyUnit.AllowsNature plain
  cases unit.kind with
  | cls => exact sound.superclass
  | mod => simp

/-- As a mere namespace a unit breaks no rule that it does not break as a module. -/
theorem flaw?_frozen {unit : UnitDraft} (flawless : unit.plain.flaw? = none) : unit.frozen.flaw? = none := by
  unfold frozen
  split
  · next mere =>
    obtain ⟨names, marked, apart, _⟩ := RubyUnit.flaw?_eq_none_iff.mp flawless
    refine RubyUnit.flaw?_eq_none_iff.mpr ⟨names, marked, apart, fun _ => ?_⟩
    simp only [isNamespace, Bool.and_eq_true, Bool.not_eq_true'] at mere
    exact mere.2
  · exact flawless

/-- A unit freezes exactly if it breaks no rule. -/
theorem freeze_eq_ok_iff {draft : UnitDraft} {unit : RubyUnit} :
    draft.freeze = .ok unit ↔ draft.plain.flaw? = none ∧ unit = draft.frozen := by
  constructor
  · intro success
    obtain ⟨plain, valid, success⟩ := Except.bind_eq_ok_iff.mp success
    obtain ⟨flawless, rfl⟩ := RubyUnit.checked_eq_ok_iff.mp valid
    refine ⟨flawless, ?_⟩
    unfold frozen
    split at success
    · next mere =>
      rw [if_pos mere]
      exact (RubyUnit.checked_eq_ok_iff.mp success).2
    · next other =>
      rw [if_neg other]
      exact (Except.ok.inj success).symm
  · rintro ⟨flawless, rfl⟩
    have frozen := flaw?_frozen flawless
    refine Except.bind_eq_ok_iff.mpr ⟨_, RubyUnit.checked_eq_ok_iff.mpr ⟨flawless, rfl⟩, ?_⟩
    unfold UnitDraft.frozen at frozen ⊢
    split
    · next mere =>
      rw [if_pos mere] at frozen
      exact RubyUnit.checked_eq_ok_iff.mpr ⟨frozen, rfl⟩
    · rfl

end UnitDraft

theorem kind_frozen (unit : UnitDraft) : unit.frozen.kind = unit.kind := by
  unfold UnitDraft.frozen
  split
  · next mere =>
    simp only [UnitDraft.isNamespace, Bool.and_eq_true, beq_iff_eq] at mere
    exact mere.1.1.symm
  · exact unit.kind_plain

/-- A namespace is a module, which has no superclass frozen or not. -/
theorem superclass?_frozen (unit : UnitDraft) : unit.frozen.superclass? = unit.plain.superclass? := by
  unfold UnitDraft.frozen
  split
  · next mere =>
    simp only [UnitDraft.isNamespace, Bool.and_eq_true, beq_iff_eq] at mere
    rw [UnitDraft.superclass?_plain, if_neg (by simp [mere.1.1])]
    rfl
  · rfl

namespace Draft

/-- The document that a sound draft freezes to. -/
def document (draft : Draft) : Document :=
  ⟨draft.units.map (·.2.frozen), draft.requires, draft.metadata, draft.filename⟩

theorem Sound.keyed {draft : Draft} (sound : draft.Sound) : draft.Keyed where
  distinct := sound.distinct
  named key unit found := (sound.units key unit found).keyed

/-- Units are frozen under the names that they are kept under. -/
theorem Keyed.names_eq {draft : Draft} (keyed : draft.Keyed) {entries : Entries String UnitDraft}
    (part : entries ⊆ draft.units) :
    (entries.map (·.2.frozen)).map (·.qualifiedName) = entries.keys := by
  rw [List.map_map]
  refine List.map_congr_left fun entry member => ?_
  have found := Entries.get?_of_mem keyed.distinct (part member)
  exact (UnitDraft.frozen_qualifiedName entry.2).trans (keyed.named _ _ found)

theorem Sound.names_eq {draft : Draft} (sound : draft.Sound) :
    draft.document.units.map (·.qualifiedName) = draft.units.keys :=
  sound.keyed.names_eq (List.Subset.refl _)

private theorem mapM_freeze_eq_ok_iff {drafts : List UnitDraft} {units : List RubyUnit} :
    drafts.mapM UnitDraft.freeze = .ok units ↔
      (∀ draft ∈ drafts, draft.plain.flaw? = none) ∧ units = drafts.map UnitDraft.frozen := by
  rw [Except.mapM_eq_ok_iff]
  constructor
  · intro freezes
    induction freezes with
    | nil => exact ⟨List.forall_mem_nil _, rfl⟩
    | cons head _ ih =>
      obtain ⟨flawless, rfl⟩ := UnitDraft.freeze_eq_ok_iff.mp head
      exact ⟨List.forall_mem_cons.mpr ⟨flawless, ih.1⟩, by rw [ih.2, List.map_cons]⟩
  · rintro ⟨flawless, rfl⟩
    rw [List.forall₂_map_right_iff, List.forall₂_same]
    exact fun draft member => UnitDraft.freeze_eq_ok_iff.mpr ⟨flawless draft member, rfl⟩

/-- A draft is built exactly if it was not built before and neither a unit nor the document breaks a rule. -/
theorem build_eq_ok_iff {draft : Draft} {document : Document} :
    draft.build.2 = .ok document ↔
      draft.built = false ∧ (∀ entry ∈ draft.units, entry.2.plain.flaw? = none) ∧
        draft.document.flaw? = none ∧ document = draft.document := by
  have freezes : draft.frozen = .ok document ↔
      (∀ entry ∈ draft.units, entry.2.plain.flaw? = none) ∧
        draft.document.flaw? = none ∧ document = draft.document := by
    unfold frozen
    simp only [Except.bind_eq_ok_iff, Except.mapError_eq_ok_iff, mapM_freeze_eq_ok_iff,
      Document.checked_eq_ok_iff, List.forall_mem_map]
    constructor
    · rintro ⟨_, ⟨flawless, rfl⟩, valid⟩
      rw [List.map_map] at valid
      exact ⟨flawless, valid⟩
    · rintro ⟨flawless, valid⟩
      refine ⟨_, ⟨flawless, rfl⟩, ?_⟩
      rw [List.map_map]
      exact valid
  rw [← freezes]
  unfold build
  cases draft.built <;> simp

theorem build_eq_ok {draft : Draft} {document : Document} (success : draft.build.2 = .ok document) :
    document = draft.document :=
  (build_eq_ok_iff.mp success).2.2.2

/-- What is built was checked, and so was each of its units. -/
theorem flawless_of_build {draft : Draft} {document : Document} (success : draft.build.2 = .ok document) :
    document.flaw? = none ∧ ∀ unit ∈ document.units, unit.flaw? = none := by
  obtain ⟨_, units, flawless, rfl⟩ := build_eq_ok_iff.mp success
  exact ⟨flawless, List.forall_mem_map.mpr fun entry member => UnitDraft.flaw?_frozen (units entry member)⟩

/-- A sound draft that was not built before can be built. -/
theorem Sound.build_eq {draft : Draft} (sound : draft.Sound) (unbuilt : draft.built = false) :
    draft.build.2 = .ok draft.document := by
  refine build_eq_ok_iff.mpr ⟨unbuilt, fun entry member => ?_, ?_, rfl⟩
  · exact (sound.units _ _ (Entries.get?_of_mem sound.distinct member)).plain_flaw?
  · rw [Document.flaw?_eq_none_iff, sound.names_eq]
    exact ⟨sound.distinct, sound.requires⟩

end Draft

end LiterateRuby
