import LiterateRuby.Proofs.Literate.Reread

/-! # The units that a written text collects

The state of the writer and the state of the unit draft agree after every method (`Coupled`), so each
method is added as it was, but for its prose. `slotRun?_writtenCalls` puts the parts of a unit together:
from nothing or from a holder a written unit becomes `finalDraft`.
-/

namespace LiterateRuby.Literate

open Draft (Call slotRun? slotRun?_cons_of_unit slotRun?_append)
open FrontMatter (namesIn entriesIn)

/-! ## Methods -/

/-- A method as it is read again: prose is not written. -/
def rereadMethod (method : Method) : Method := { method with prose := none }

/-- What the writer and the unit draft agree on between two methods. A singleton block is a public
section. -/
structure Coupled (state : SectionState) (unit : UnitDraft) : Prop where
  visibility : unit.visibility = state.active
  block : unit.inSingleton = state.inBlock
  inside : state.inBlock = true → state.active = .pub ∧ state.inSection = true

/-- A unit draft with methods and where they leave the writer. -/
def withMethods (unit : UnitDraft) (methods : List Method) (state : SectionState) : UnitDraft :=
  { unit with
    methods := unit.methods ++ methods.map rereadMethod
    visibility := state.active
    inSingleton := state.inBlock }

/-- The headings before a method bring the unit draft to where the method stands. -/
theorem slotRun?_sectionCalls {key : String} {state : SectionState} {unit : UnitDraft}
    (coupled : Coupled state unit) (method : Method) (rest : List Call) :
    slotRun? key (some unit) (sectionCalls key state method ++ rest) =
      slotRun? key (some (withMethods unit [] (nextState state method))) rest := by
  have same : unit = withMethods unit [] state := by
    obtain ⟨visibility, block, _⟩ := coupled
    simp [withMethods, ← visibility, ← block]
  unfold sectionCalls nextState sectionHeadings
  split_ifs
  · rw [List.nil_append]
    exact congrArg (fun held => slotRun? key (some held) rest) same
  · rw [List.singleton_append, slotRun?_cons_of_unit rfl]
    simp [Call.effect?, Call.update?, withMethods]
  · rw [List.cons_append, List.singleton_append, slotRun?_cons_of_unit rfl]
    simp only [Call.effect?, Call.update?, Option.bind_some]
    rw [slotRun?_cons_of_unit rfl]
    simp [Call.effect?, Call.update?, withMethods]
  · rw [List.nil_append]
    exact congrArg (fun held => slotRun? key (some held) rest) same

/-- Where a method stands when it is added. -/
theorem nextState_of_block {state : SectionState} {method : Method}
    (block : method.binding = .inSingleton → method.visibility = .pub)
    (inside : state.inBlock = true → state.active = .pub ∧ state.inSection = true) :
    (nextState state method).active = method.visibility ∧
      (nextState state method).inBlock = (method.binding == .inSingleton) ∧
      ((nextState state method).inBlock = true →
        (nextState state method).active = .pub ∧ (nextState state method).inSection = true) := by
  unfold nextState sectionHeadings
  split_ifs with single within turns
  · rw [block single, single]
    exact ⟨(inside within).1, within, inside⟩
  · rw [block single, single]
    exact ⟨rfl, rfl, fun _ => ⟨rfl, rfl⟩⟩
  · exact ⟨rfl, by simp [single], by simp⟩
  · simp only [Bool.or_eq_true, bne_iff_ne, ne_eq, not_or, Bool.not_eq_true, not_not] at turns
    exact ⟨turns.2.symm, by simp [single, turns.1], inside⟩

/-- A method is added as it was. -/
theorem inUnit_writtenEntry {method : Method} {unit : UnitDraft} (visible : unit.visibility = method.visibility)
    (block : unit.inSingleton = (method.binding == .inSingleton)) :
    (writtenEntry method).inUnit unit = rereadMethod method := by
  obtain ⟨name, parameters, body, visibility, binding, prose⟩ := method
  cases binding <;> simp_all [writtenEntry, Draft.MethodEntry.inUnit, rereadMethod, titledBinding]

/-- The calls of one method add it, and the writer and the unit draft still agree. -/
theorem slotRun?_method {key : String} {state : SectionState} {unit : UnitDraft}
    (coupled : Coupled state unit) {method : Method} (plain : PlainMethod method) (rest : List Call) :
    slotRun? key (some unit) (sectionCalls key state method ++
        ((if (nextState state method).inSection then [] else [.exitSingleton key]) ++
          .addMethod key (writtenEntry method) :: rest)) =
      slotRun? key (some (withMethods unit [method] (nextState state method))) rest := by
  obtain ⟨active, block, inside⟩ := nextState_of_block plain.block coupled.inside
  have added : (Call.addMethod key (writtenEntry method)).effect?
      (some (withMethods unit [] (nextState state method))) =
      some (withMethods unit [method] (nextState state method)) := by
    have entry : (writtenEntry method).inUnit (withMethods unit [] (nextState state method)) =
        rereadMethod method := inUnit_writtenEntry active block
    have valid : (rereadMethod method).checked = .ok (rereadMethod method) :=
      Method.checked_eq_ok_iff.mpr ⟨plain.titled.sound, rfl⟩
    simp only [Call.effect?, Call.update?, entry, valid]
    simp [withMethods]
  rw [slotRun?_sectionCalls coupled]
  split
  · rw [List.nil_append, slotRun?_cons_of_unit rfl, added, Option.bind_some]
  · next outside =>
    -- without any section heading the singleton block was never entered
    have left : (nextState state method).inBlock = false := by
      cases within : (nextState state method).inBlock with
      | false => rfl
      | true => exact absurd (inside within).2 outside
    have stays : (Call.exitSingleton key).effect? (some (withMethods unit [] (nextState state method))) =
        some (withMethods unit [] (nextState state method)) := by
      simp [Call.effect?, Call.update?, withMethods, left]
    rw [List.singleton_append, slotRun?_cons_of_unit rfl, stays, Option.bind_some, slotRun?_cons_of_unit rfl,
      added, Option.bind_some]

private theorem withMethods_withMethods (unit : UnitDraft) (first second : List Method)
    (before after : SectionState) :
    withMethods (withMethods unit first before) second after = withMethods unit (first ++ second) after := by
  simp [withMethods]

/-- Written methods are collected in order, and the writer and the unit draft agree to the end. -/
theorem slotRun?_methodCalls {key : String} {state : SectionState} {unit : UnitDraft}
    (coupled : Coupled state unit) {methods : List Method} (plain : ∀ method ∈ methods, PlainMethod method) :
    slotRun? key (some unit) (methodCalls key state methods) =
      some (some (withMethods unit methods (methods.foldl nextState state))) := by
  induction methods generalizing state unit with
  | nil =>
    obtain ⟨visibility, block, _⟩ := coupled
    simp [methodCalls, withMethods, ← visibility, ← block]
  | cons method rest ih =>
    have held := plain method List.mem_cons_self
    obtain ⟨_, _, inside⟩ := nextState_of_block held.block coupled.inside
    have next : Coupled (nextState state method) (withMethods unit [method] (nextState state method)) :=
      ⟨rfl, rfl, inside⟩
    have later := ih next fun other member => plain other (List.mem_cons_of_mem _ member)
    rw [methodCalls, slotRun?_method coupled held, later, withMethods_withMethods, List.singleton_append,
      List.foldl_cons]

/-! ## Calls that fill one field -/

/-- A field of a unit draft. -/
structure Field (β : Type) where
  get : UnitDraft → β
  set : UnitDraft → β → UnitDraft
  get_set : ∀ unit value, get (set unit value) = value
  set_set : ∀ unit first second, set (set unit first) second = set unit second
  set_get : ∀ unit, set unit (get unit) = unit

namespace Field

def constants : Field (Entries String Constant) :=
  ⟨(·.constants), fun unit constants => { unit with constants }, fun _ _ => rfl, fun _ _ _ => rfl, fun _ => rfl⟩

def classVariables : Field (Entries String Constant) :=
  ⟨(·.classVariables), fun unit classVariables => { unit with classVariables }, fun _ _ => rfl,
    fun _ _ _ => rfl, fun _ => rfl⟩

def attributes : Field (List Attribute) :=
  ⟨(·.attributes), fun unit attributes => { unit with attributes }, fun _ _ => rfl, fun _ _ _ => rfl,
    fun _ => rfl⟩

def included : Field (List String) :=
  ⟨(·.included), fun unit included => { unit with included }, fun _ _ => rfl, fun _ _ _ => rfl, fun _ => rfl⟩

def extended : Field (List String) :=
  ⟨(·.extended), fun unit extended => { unit with extended }, fun _ _ => rfl, fun _ _ _ => rfl, fun _ => rfl⟩

def aliases : Field (Entries String String) :=
  ⟨(·.aliases), fun unit aliases => { unit with aliases }, fun _ _ => rfl, fun _ _ _ => rfl, fun _ => rfl⟩

def aliasMethods : Field (Entries String String) :=
  ⟨(·.aliasMethods), fun unit aliasMethods => { unit with aliasMethods }, fun _ _ => rfl, fun _ _ _ => rfl,
    fun _ => rfl⟩

variable {α β : Type}

/-- Calls that each take one step in one field, as long as the rest of the unit allows them. -/
theorem slotRun?_steps (field : Field β) (Allows : UnitDraft → Prop)
    (keeps : ∀ draft value, Allows draft → Allows (field.set draft value)) (made : α → Call)
    (step : β → α → β) {key : String} {items : List α} (addressed : ∀ item, (made item).unit? = some key)
    (takes : ∀ draft, Allows draft → ∀ item ∈ items,
      (made item).update? draft = some (field.set draft (step (field.get draft) item)))
    {draft : UnitDraft} (allowed : Allows draft) {start filled : β} (begins : field.get draft = start)
    (ends : items.foldl step start = filled) :
    slotRun? key (some draft) (items.map made) = some (some (field.set draft filled)) := by
  induction items generalizing draft start with
  | nil =>
    rw [List.foldl_nil] at ends
    rw [List.map_nil, ← ends, ← begins, field.set_get, Draft.slotRun?_nil]
  | cons item rest ih =>
    have first : (made item).effect? (some draft) = some (field.set draft (step start item)) := by
      rw [← begins]
      exact takes draft allowed item List.mem_cons_self
    have later := ih (fun draft allowed other member => takes draft allowed other (List.mem_cons_of_mem _ member))
      (keeps draft (step start item) allowed) (field.get_set draft _) ends
    rw [List.map_cons, slotRun?_cons_of_unit (addressed item), first, Option.bind_some, later, field.set_set]

end Field

/-! ## Declarations -/

/-- Values as they are read again. -/
def rereadEntries (values : Entries String Constant) : Entries String Constant :=
  values.map fun (name, value) => (name, rereadValue value)

private theorem keys_rereadEntries (values : Entries String Constant) :
    (rereadEntries values).keys = values.keys := by
  simp [rereadEntries, Entries.keys, Function.comp_def]

private theorem slotRun?_constants {key : String} {values : Entries String Constant} (once : values.keys.Nodup)
    (named : ∀ entry ∈ values, ConstantName entry.1) {draft : UnitDraft} (empty : draft.constants = []) :
    slotRun? key (some draft)
        ((rereadEntries values).map fun entry => .addConstant key entry.1 entry.2) =
      some (some { draft with constants := rereadEntries values }) := by
  have all := Entries.ofPairs_of_nodup ((keys_rereadEntries values).symm ▸ once)
  refine Field.constants.slotRun?_steps (fun _ => True) (fun _ _ _ => trivial) _
    (fun held (entry : String × Constant) => held.put entry.1 entry.2) (fun _ => rfl) ?_ trivial empty all
  intro draft _ entry member
  obtain ⟨⟨name, value⟩, listed, rfl⟩ := List.mem_map.mp member
  obtain ⟨⟨c, rest, starts, _⟩, _⟩ := named _ listed
  have given : name ≠ "" := by
    rintro rfl
    cases starts
  exact if_neg given

theorem bareVariable_of_named {bare : String} (given : bare ≠ "") (word : WordText bare) :
    Draft.bareVariable ("@@" ++ bare) = bare.toList := by
  obtain ⟨c, rest, starts⟩ := List.exists_cons_of_ne_nil (toList_ne_nil given)
  have sign : c ≠ '@' := ne_of_isWord (word c (by simp [starts])) (by decide +kernel)
  simp [Draft.bareVariable, starts, sign]

private theorem slotRun?_classVariables {key : String} {values : Entries String Constant} (once : values.keys.Nodup)
    (named : ∀ entry ∈ values, ClassVariableName entry.1) {draft : UnitDraft}
    (empty : draft.classVariables = []) :
    slotRun? key (some draft)
        ((rereadEntries values).map fun entry => .addClassVariable key entry.1 entry.2) =
      some (some { draft with classVariables := rereadEntries values }) := by
  have all := Entries.ofPairs_of_nodup ((keys_rereadEntries values).symm ▸ once)
  refine Field.classVariables.slotRun?_steps (fun _ => True) (fun _ _ _ => trivial) _
    (fun held (entry : String × Constant) => held.put entry.1 entry.2) (fun _ => rfl) ?_ trivial empty all
  intro draft _ entry member
  obtain ⟨⟨name, value⟩, listed, rfl⟩ := List.mem_map.mp member
  obtain ⟨bare, rfl, given, word⟩ := named _ listed
  have full : String.ofList ('@' :: '@' :: bare.toList) = "@@" ++ bare := by
    rw [← String.toList_inj]
    simp
  simp only [Call.update?, bareVariable_of_named given word, full]
  rw [if_neg (by simpa using given)]
  rfl

private theorem foldl_concat {α : Type} (start items : List α) :
    items.foldl (fun held item => held ++ [item]) start = start ++ items := by
  induction items generalizing start with
  | nil => simp
  | cons item rest ih => rw [List.foldl_cons, ih, List.append_assoc, List.singleton_append]

private theorem slotRun?_attributes {key : String} {attributes : List Attribute}
    (plain : ∀ declaration ∈ attributes, declaration.names ≠ [] ∧
      ∀ name ∈ declaration.names, AttributeName name) {draft : UnitDraft} (empty : draft.attributes = []) :
    slotRun? key (some draft)
        (attributes.map fun declaration => .addAttribute key declaration.accessor declaration.names) =
      some (some { draft with attributes }) := by
  refine Field.attributes.slotRun?_steps (fun _ => True) (fun _ _ _ => trivial) _
    (fun held declaration => held ++ [declaration]) (fun _ => rfl) ?_ trivial empty
    (foldl_concat [] attributes)
  intro draft _ declaration member
  obtain ⟨given, names⟩ := plain declaration member
  have valid : Attribute.checked declaration.accessor declaration.names = .ok declaration :=
    Attribute.checked_eq_ok_iff.mpr ⟨given, fun blank => (names "" blank).1 rfl, rfl⟩
  simp only [Call.update?, valid]
  rfl

/-- The declarations of a unit fill its values and attributes. -/
theorem slotRun?_declarations {key : String} {unit : RubyUnit} (plain : PlainDeclarations unit)
    {draft : UnitDraft} (constants : draft.constants = []) (classVariables : draft.classVariables = [])
    (attributes : draft.attributes = []) :
    slotRun? key (some draft) ((declarationPairs key unit).map (·.2)) =
      some (some { draft with
        constants := rereadEntries unit.constants
        classVariables := rereadEntries unit.classVariables
        attributes := allAttributes unit }) := by
  have calls : (declarationPairs key unit).map (·.2) =
      ((rereadEntries unit.classVariables).map fun entry => .addClassVariable key entry.1 entry.2) ++
        (((rereadEntries unit.constants).map fun entry => .addConstant key entry.1 entry.2) ++
          (allAttributes unit).map fun declaration =>
            .addAttribute key declaration.accessor declaration.names) := by
    simp [declarationPairs, rereadEntries, Function.comp_def]
  have first := @slotRun?_classVariables key _ plain.classVariablesOnce
    (fun entry member => (plain.classVariables entry member).1) draft classVariables
  have second := @slotRun?_constants key _ plain.constantsOnce
    (fun entry member => (plain.constants entry member).1)
    { draft with classVariables := rereadEntries unit.classVariables } constants
  have third := @slotRun?_attributes key _ plain.allAttributes
    { draft with
      classVariables := rereadEntries unit.classVariables
      constants := rereadEntries unit.constants } attributes
  rw [calls, slotRun?_append, first, Option.bind_some, slotRun?_append, second, Option.bind_some, third]

/-! ## Front matter -/

/-- Front matter gives to a unit its superclass, its mixins and its aliases, and nothing else. -/
structure Describes (metadata : Metadata) (unit : RubyUnit) : Prop where
  expressible : Expressible metadata
  untyped : metadata.get? "type" = none
  superclass : metadata.get? "inherits_from" = unit.superclass?.map .str
  included : namesIn (metadata.get? "include") = unit.included
  extended : namesIn (metadata.get? "extend") = unit.extended
  aliases : (entriesIn (metadata.get? "aliases")).map (fun (new, old) => (new.text, old.text)) = unit.aliases
  aliasMethods : (entriesIn (metadata.get? "alias_method")).map (fun (new, old) => (new.text, old.text)) =
    unit.aliasMethods
  undeclared : ∀ key ∈ ["attr", "attr_reader", "attr_writer", "attr_accessor", "constants", "class_variables"],
    metadata.get? key = none

/-- A unit that front matter has nothing to say of. -/
structure Undescribed (unit : RubyUnit) : Prop where
  superclass : unit.superclass? = none
  included : unit.included = []
  extended : unit.extended = []
  aliases : unit.aliases = []
  aliasMethods : unit.aliasMethods = []

/-- The mixins and aliases of a unit are such as front matter can hold. -/
structure PlainMixins (unit : RubyUnit) : Prop where
  included : unit.included.Nodup
  extended : unit.extended.Nodup
  aliases : unit.aliases.keys.Nodup
  aliasMethods : unit.aliasMethods.keys.Nodup
  apart : ∀ name ∈ unit.aliases.keys, name ∉ unit.aliasMethods.keys

def openedUnit (unit : RubyUnit) : UnitDraft where
  name := unit.name
  kind := unit.kind
  scope := unit.scope

/-- An opened unit with what front matter says of it. -/
def describedUnit (unit : RubyUnit) : UnitDraft :=
  { openedUnit unit with
    superclass := unit.superclass?
    included := unit.included
    extended := unit.extended
    aliases := unit.aliases
    aliasMethods := unit.aliasMethods }

private theorem Undescribed.describedUnit_eq {unit : RubyUnit} (undescribed : Undescribed unit) :
    describedUnit unit = openedUnit unit := by
  obtain ⟨superclass, included, extended, aliases, aliasMethods⟩ := undescribed
  simp [describedUnit, superclass, included, extended, aliases, aliasMethods, openedUnit]

private theorem slotRun?_superclass {metadata : Metadata} {unit : RubyUnit} (describes : Describes metadata unit)
    (key : String) :
    slotRun? key (some (openedUnit unit)) (superclassCalls metadata unit.kind key) =
      some (some { openedUnit unit with superclass := unit.superclass? }) := by
  unfold superclassCalls
  rw [describes.superclass]
  cases named : unit.superclass? with
  | none => rfl
  | some name =>
    obtain ⟨nature, given⟩ := RubyUnit.of_superclass? named
    have shown : ((some name).map Datum.str).filter Datum.isGiven = some (.str name) := by
      rw [Option.map_some, Option.filter_some_pos]
      simpa [Datum.isGiven] using given
    rw [shown, nature]
    dsimp only
    rw [slotRun?_cons_of_unit rfl]
    simp [Call.effect?, Call.update?, openedUnit, nature, Datum.text]

private theorem slotRun?_declared {metadata : Metadata} {unit : RubyUnit} (describes : Describes metadata unit)
    (key : String) (draft : UnitDraft) (rest : List Call) :
    slotRun? key (some draft) (declaredCall metadata key .reader "reader" ::
      declaredCall metadata key .writer "writer" :: declaredCall metadata key .both "accessor" :: rest) =
      slotRun? key (some draft) rest := by
  have attr := describes.undeclared "attr" (by simp)
  have nothing (accessor : Accessor) (name : String)
      (absent : metadata.get? accessor.keyword = none) :
      declaredCall metadata key accessor name = .addDeclared key accessor [] := by
    simp [declaredCall, FrontMatter.nested?, attr, absent, namesIn]
  rw [nothing .reader "reader" (describes.undeclared "attr_reader" (by simp)),
    nothing .writer "writer" (describes.undeclared "attr_writer" (by simp)),
    nothing .both "accessor" (describes.undeclared "attr_accessor" (by simp))]
  rw [slotRun?_cons_of_unit rfl]
  simp only [Call.effect?, Call.update?, Option.bind_some]
  rw [slotRun?_cons_of_unit rfl]
  simp only [Call.effect?, Call.update?, Option.bind_some]
  rw [slotRun?_cons_of_unit rfl]
  simp [Call.effect?, Call.update?, Draft.appendNew]

private theorem slotRun?_included {key : String} {names : List String} (once : names.Nodup) {draft : UnitDraft}
    (empty : draft.included = []) :
    slotRun? key (some draft) (names.map (.addInclude key)) = some (some { draft with included := names }) :=
  Field.included.slotRun?_steps (fun _ => True) (fun _ _ _ => trivial) _ Draft.appendOnce (fun _ => rfl)
    (fun _ _ _ _ => rfl) trivial empty (Text.distinct_of_nodup once)

private theorem slotRun?_extended {key : String} {names : List String} (once : names.Nodup) {draft : UnitDraft}
    (empty : draft.extended = []) :
    slotRun? key (some draft) (names.map (.addExtend key)) = some (some { draft with extended := names }) :=
  Field.extended.slotRun?_steps (fun _ => True) (fun _ _ _ => trivial) _ Draft.appendOnce (fun _ => rfl)
    (fun _ _ _ _ => rfl) trivial empty (Text.distinct_of_nodup once)

private theorem slotRun?_aliases {key : String} {aliases : Entries String String} (once : aliases.keys.Nodup)
    {draft : UnitDraft} (empty : draft.aliases = []) (free : draft.aliasMethods = []) :
    slotRun? key (some draft) (aliases.map fun entry => .addAlias key entry.1 entry.2) =
      some (some { draft with aliases }) := by
  refine Field.aliases.slotRun?_steps (fun draft => draft.aliasMethods = []) (fun _ _ held => held) _
    (fun held (entry : String × String) => held.put entry.1 entry.2) (fun _ => rfl) ?_ free empty
    (Entries.ofPairs_of_nodup once)
  intro draft bare entry _
  have absent : draft.aliasMethods.has entry.1 = false := by
    rw [bare]
    rfl
  simp only [Call.update?, absent]
  rfl

private theorem slotRun?_aliasMethods {key : String} {aliasMethods : Entries String String}
    (once : aliasMethods.keys.Nodup) {draft : UnitDraft} (empty : draft.aliasMethods = [])
    (free : ∀ name ∈ aliasMethods.keys, name ∉ draft.aliases.keys) :
    slotRun? key (some draft) (aliasMethods.map fun entry => .addAliasMethod key entry.1 entry.2) =
      some (some { draft with aliasMethods }) := by
  refine Field.aliasMethods.slotRun?_steps (fun held => held.aliases = draft.aliases) (fun _ _ held => held) _
    (fun held (entry : String × String) => held.put entry.1 entry.2) (fun _ => rfl) ?_ rfl empty
    (Entries.ofPairs_of_nodup once)
  intro other same entry member
  have absent : other.aliases.has entry.1 = false := by
    rw [Bool.eq_false_iff, ne_eq, Entries.has_eq_true_iff, same]
    exact free entry.1 (List.mem_map_of_mem member)
  simp only [Call.update?, absent]
  rfl

/-- Front matter gives to an opened unit what it describes. -/
theorem slotRun?_frontMatterCalls {metadata : Metadata} {unit : RubyUnit} (describes : Describes metadata unit)
    (plain : PlainMixins unit) (key : String) :
    slotRun? key (some (openedUnit unit)) (frontMatterCalls metadata unit.kind key) =
      some (some (describedUnit unit)) := by
  have constants := describes.undeclared "constants" (by simp)
  have classVariables := describes.undeclared "class_variables" (by simp)
  have aliases : (entriesIn (metadata.get? "aliases")).map (fun (new, old) => Call.addAlias key new.text old.text) =
      unit.aliases.map fun entry => .addAlias key entry.1 entry.2 := by
    rw [← describes.aliases, List.map_map]
    rfl
  have aliasMethods : (entriesIn (metadata.get? "alias_method")).map
      (fun (new, old) => Call.addAliasMethod key new.text old.text) =
      unit.aliasMethods.map fun entry => .addAliasMethod key entry.1 entry.2 := by
    rw [← describes.aliasMethods, List.map_map]
    rfl
  have first := slotRun?_superclass describes key
  have third := @slotRun?_included key _ plain.included { openedUnit unit with superclass := unit.superclass? } rfl
  have fourth := @slotRun?_extended key _ plain.extended
    { openedUnit unit with superclass := unit.superclass?, included := unit.included } rfl
  have fifth := @slotRun?_aliases key _ plain.aliases
    { openedUnit unit with
      superclass := unit.superclass?, included := unit.included, extended := unit.extended } rfl rfl
  have sixth := @slotRun?_aliasMethods key _ plain.aliasMethods
    { openedUnit unit with
      superclass := unit.superclass?, included := unit.included, extended := unit.extended
      aliases := unit.aliases } rfl (fun name method plainForm => plain.apart name plainForm method)
  unfold frontMatterCalls
  rw [describes.included, describes.extended, constants, classVariables, aliases, aliasMethods,
    slotRun?_append, first, Option.bind_some]
  simp only [List.singleton_append, entriesIn, List.map_nil, List.nil_append]
  rw [slotRun?_declared describes key, slotRun?_append, third, Option.bind_some, slotRun?_append,
    fourth, Option.bind_some, slotRun?_append, fifth, Option.bind_some, sixth]
  rfl

/-! ## Holders and units -/

/-- The paths that lead to a path below another one, shortest first. -/
def pathsTo (above : List String) : List String → List (List String)
  | [] => []
  | name :: rest => (above ++ [name]) :: pathsTo (above ++ [name]) rest

/-- The call that makes sure that a path exists. -/
def holderCall (path : List String) : Call := .ensureHolder (path.getLast?.getD "") path.dropLast

def holderDraft (path : List String) : UnitDraft where
  name := path.getLast?.getD ""
  kind := .mod
  scope := path.dropLast
  holder := true

theorem holderCalls_eq (above scope : List String) :
    holderCalls above scope = (pathsTo above scope).map holderCall := by
  induction scope generalizing above with
  | nil => rfl
  | cons name rest ih =>
    rw [holderCalls, pathsTo, List.map_cons, ih]
    simp [holderCall]

theorem pathsTo_concat (above scope : List String) (name : String) :
    pathsTo above (scope ++ [name]) = pathsTo above scope ++ [above ++ (scope ++ [name])] := by
  induction scope generalizing above with
  | nil => rfl
  | cons first rest ih =>
    rw [List.cons_append, pathsTo, ih, pathsTo]
    simp

theorem mem_pathsTo {path above scope : List String} (member : path ∈ pathsTo above scope) :
    ∃ inner, inner ≠ [] ∧ inner <+: scope ∧ path = above ++ inner := by
  induction scope generalizing above with
  | nil => cases member
  | cons name rest ih =>
    rcases List.mem_cons.mp member with rfl | later
    · exact ⟨[name], by simp, by simp, rfl⟩
    · obtain ⟨inner, given, starts, rfl⟩ := ih later
      exact ⟨name :: inner, by simp, by simpa using starts, by simp⟩

theorem unit?_holderCall {path : List String} (given : path ≠ []) :
    (holderCall path).unit? = some (Text.joinScope path) := by
  have whole : path.dropLast ++ [path.getLast?.getD ""] = path := by
    rw [List.getLast?_eq_some_getLast given, Option.getD_some, List.dropLast_append_getLast]
  rw [holderCall, Call.unit?, Draft.keyOf, whole]

/-- Holders come into being where nothing is yet, and change nothing else. -/
theorem slotRun?_holderCalls {key : String} {paths : List (List String)} (given : ∀ path ∈ paths, path ≠ [])
    (slot : Option UnitDraft) :
    slotRun? key slot (paths.map holderCall) =
      some (slot.or ((paths.find? fun path => Text.joinScope path == key).map holderDraft)) := by
  induction paths generalizing slot with
  | nil => simp
  | cons path rest ih =>
    have later := ih fun other member => given other (List.mem_cons_of_mem _ member)
    have addressed := unit?_holderCall (given path List.mem_cons_self)
    rw [List.map_cons]
    by_cases here : Text.joinScope path = key
    · have effect : (holderCall path).effect? slot = some (slot.getD (holderDraft path)) := by
        cases slot <;> rfl
      rw [slotRun?_cons_of_unit (here ▸ addressed), effect, Option.bind_some, later,
        List.find?_cons_of_pos (by simpa using here)]
      cases slot <;> rfl
    · rw [Draft.slotRun?_cons_of_ne (by simpa [addressed] using here), later,
        List.find?_cons_of_neg (by simpa using here)]

/-- What a written unit becomes. -/
def finalDraft (unit : RubyUnit) : UnitDraft :=
  withMethods
    { describedUnit unit with
      constants := rereadEntries unit.constants
      classVariables := rereadEntries unit.classVariables
      attributes := allAttributes unit }
    unit.methods (unit.methods.foldl nextState {})

/-- A path is longer than the paths of its holders. -/
theorem ne_of_mem_pathsTo {unit : RubyUnit} (fair : FairUnit unit) {path : List String}
    (member : path ∈ pathsTo [] unit.scope) : Text.joinScope path ≠ unit.qualifiedName := by
  obtain ⟨inner, given, starts, whole⟩ := mem_pathsTo member
  rw [List.nil_append] at whole
  subst whole
  intro same
  have named : ∀ segment ∈ path, BareName segment := fun segment inside =>
    fair.path segment (List.mem_append_left _ (starts.subset inside))
  have equal := joinScope_injective given (Branch.path_ne_nil unit) named fair.path same
  have short := starts.length_le
  rw [equal, RubyUnit.path, List.length_append, List.length_singleton] at short
  omega

/-- A unit is opened where nothing or a holder was. -/
theorem slotRun?_openingCalls {unit : RubyUnit} (fair : FairUnit unit) {slot : Option UnitDraft}
    (held : slot = none ∨ slot = some (holderDraft unit.path)) :
    slotRun? unit.qualifiedName slot (openingCalls unit.kind unit.path) = some (some (openedUnit unit)) := by
  have last : unit.path.getLast?.getD "" = unit.name := by simp [RubyUnit.path]
  have scope : unit.path.dropLast = unit.scope := by simp [RubyUnit.path]
  have named : unit.name ≠ "" := (fair.path unit.name (by simp [RubyUnit.path])).given
  have absent : (pathsTo [] unit.scope).find? (fun path => Text.joinScope path == unit.qualifiedName) =
      none := by
    rw [List.find?_eq_none]
    intro path member
    simpa using ne_of_mem_pathsTo fair member
  have holders : slotRun? unit.qualifiedName slot (holderCalls [] unit.scope) = some slot := by
    rw [holderCalls_eq, slotRun?_holderCalls, absent]
    · simp
    · intro path member
      obtain ⟨inner, given, _, rfl⟩ := mem_pathsTo member
      simpa using given
  have opens : (Call.addUnit unit.name unit.kind unit.scope).effect? slot = some (openedUnit unit) := by
    rcases held with rfl | rfl
    · simp [Call.effect?, Call.fresh?, named, openedUnit]
    · simp [Call.effect?, Call.update?, named, holderDraft, openedUnit, last, scope]
  have address : (Call.addUnit unit.name unit.kind unit.scope).unit? = some unit.qualifiedName := rfl
  have key : Text.joinScope unit.path = unit.qualifiedName := rfl
  rw [openingCalls, last, scope, slotRun?_append, holders, Option.bind_some, slotRun?_cons_of_unit address,
    opens, Option.bind_some, key, slotRun?_cons_of_unit rfl]
  simp only [Call.effect?, Call.update?, Option.bind_some]
  rw [slotRun?_cons_of_unit rfl]
  rfl

/-- From nothing or from a holder a written unit becomes what it was. -/
theorem slotRun?_writtenCalls {metadata : Metadata} {opened : Bool} {unit : RubyUnit} (fair : FairUnit unit)
    (mixed : PlainMixins unit)
    (described : if opened then Undescribed unit else Describes metadata unit) {slot : Option UnitDraft}
    (held : slot = none ∨ slot = some (holderDraft unit.path)) :
    slotRun? unit.qualifiedName slot (writtenCalls metadata opened unit) = some (some (finalDraft unit)) := by
  have front : slotRun? unit.qualifiedName (some (openedUnit unit))
      (if opened then [] else frontMatterCalls metadata unit.kind unit.qualifiedName) =
      some (some (describedUnit unit)) := by
    cases opened with
    | true =>
      rw [if_pos rfl] at described ⊢
      rw [Draft.slotRun?_nil, described.describedUnit_eq]
    | false => exact slotRun?_frontMatterCalls described mixed unit.qualifiedName
  have declared := @slotRun?_declarations unit.qualifiedName unit fair.declarations (describedUnit unit) rfl rfl rfl
  have coupled : Coupled {} { describedUnit unit with
      constants := rereadEntries unit.constants
      classVariables := rereadEntries unit.classVariables
      attributes := allAttributes unit } := ⟨rfl, rfl, by simp⟩
  have methods := @slotRun?_methodCalls unit.qualifiedName _ _ coupled _ fair.methods
  rw [writtenCalls, slotRun?_append, slotRun?_append, slotRun?_openingCalls fair held, Option.bind_some, front,
    Option.bind_some, slotRun?_append, declared, Option.bind_some, methods]
  rfl

end LiterateRuby.Literate
