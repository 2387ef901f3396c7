import LiterateRuby.Literate.Reader
import LiterateRuby.Proofs.Constant
import LiterateRuby.Proofs.Draft.Emits
import LiterateRuby.Proofs.Text.Scope

/-! # The calls that open a unit

Which calls a unit heading makes, and the front matter under the first one, depends on the text alone,
never on the draft: `unitCalls` lists them, and `openUnit_eq_ok_iff` says that a unit is opened exactly if
they can be run.
-/

namespace LiterateRuby.Literate

open Draft (Call Emits emits_call emits_foldlM emits_forEach emits_nothing emits_error)

/-! ## Front matter -/

namespace FrontMatter

/-- The names that a value gives, whatever is said of it. -/
def namesIn : Option Datum → List String
  | none | some .null => []
  | some (.list items) | some (.tuple items) =>
    (items.filter fun item => match item with
      | .null => false
      | _ => true).map Datum.text
  | some (.map entries) => entries.map (·.1.text)
  | some other => [other.text]

private theorem map_text_nameData (value : Option Datum) : (nameData value).map Datum.text = namesIn value := by
  rcases value with _ | value
  · rfl
  · cases value with
    | map entries => simp [nameData, namesIn, Function.comp_def]
    | _ => rfl

@[simp] theorem result_namesOf (key : String) (value : Option Datum) :
    (namesOf key value : Outcome ε (List String)).result = .ok (namesIn value) := by
  rw [← map_text_nameData]
  unfold namesOf
  split <;> rfl

@[simp] theorem result_entriesOf (key : String) (value : Option Datum) :
    (entriesOf key value : Outcome ε (List (Datum × Datum))).result = .ok (entriesIn value) := by
  rcases value with _ | value
  · rfl
  · cases value <;> rfl

@[simp] theorem result_namePairs (metadata : Metadata) (key : String) :
    (namePairs metadata key : Outcome ε (List (String × String))).result =
      .ok ((entriesIn (metadata.get? key)).map fun (name, value) => (name.text, value.text)) := by
  simp [namePairs]

@[simp] theorem result_valuePairs (metadata : Metadata) (key : String) :
    (valuePairs metadata key : Outcome ε (List (String × Constant))).result =
      .ok ((entriesIn (metadata.get? key)).map fun (name, value) => (name.text, value.toConstant)) := by
  simp [valuePairs]

end FrontMatter

open FrontMatter (namesIn entriesIn nameData pairData valueData)

/-- Values whose integers can all be written. -/
def Worded (values : List Datum) : Prop := ∀ value ∈ values, value.overlong? = none

@[simp] theorem worded_nil : Worded [] := fun _ listed => absurd listed List.not_mem_nil

@[simp] theorem worded_append {first second : List Datum} :
    Worded (first ++ second) ↔ Worded first ∧ Worded second := List.forall_mem_append

theorem overlongAll?_eq_none_iff {values : List Datum} :
    Datum.overlongAll? values = none ↔ Worded values := by
  induction values with
  | nil => simp [Datum.overlongAll?]
  | cons value rest ih =>
    simp [Datum.overlongAll?, Option.or_eq_none_iff, ih, Worded]

theorem checkWords_eq_ok_iff {values : List Datum} {done : PUnit} :
    Datum.checkWords values = .ok done ↔ Worded values := by
  rw [← overlongAll?_eq_none_iff]
  unfold Datum.checkWords
  cases Datum.overlongAll? values <;> simp

/-- Calls that are made if all integers in some values can be written. -/
def wordedCalls (values : List Datum) (calls : List Call) : Except ReadFault (List Call) := do
  (Datum.checkWords values).mapError .number
  return calls

theorem wordedCalls_eq_ok_iff {values : List Datum} {calls made : List Call} :
    wordedCalls values calls = .ok made ↔ Worded values ∧ made = calls := by
  unfold wordedCalls
  rw [Except.bind_eq_ok_iff]
  simp only [Except.mapError_eq_ok_iff, checkWords_eq_ok_iff, pure, Except.pure, Except.ok.injEq,
    exists_const, @eq_comm _ calls]

private theorem emits_worded (values : List Datum) {change : Draft → Except ReadFault Draft} {calls : List Call}
    (emits : Emits change (.ok calls)) :
    Emits (fun draft => (Datum.checkWords values).mapError ReadFault.number >>= fun _ => change draft)
      (wordedCalls values calls) :=
  Draft.emits_given ((Datum.checkWords values).mapError ReadFault.number) fun _ => emits

/-- What two parts say together is said if all integers in both can be written. -/
theorem emits_append {first second : Draft → Except ReadFault Draft} {values more : List Datum}
    {early late : List Call} (emits : Emits first (wordedCalls values early))
    (continues : Emits second (wordedCalls more late)) :
    Emits (fun draft => first draft >>= second) (wordedCalls (values ++ more) (early ++ late)) := by
  intro draft next
  rw [emits.bind continues draft next]
  simp only [wordedCalls_eq_ok_iff, worded_append, Except.bind_eq_ok_iff, pure, Except.pure, Except.ok.injEq]
  constructor
  · rintro ⟨emitted, ⟨_, ⟨can, rfl⟩, _, ⟨also, rfl⟩, rfl⟩, run⟩
    exact ⟨_, ⟨⟨can, also⟩, rfl⟩, run⟩
  · rintro ⟨emitted, ⟨⟨can, also⟩, rfl⟩, run⟩
    exact ⟨_, ⟨_, ⟨can, rfl⟩, _, ⟨also, rfl⟩, rfl⟩, run⟩

/-- Calls that take no text from any value change nothing about what must be written. -/
theorem emits_before {first second : Draft → Except ReadFault Draft} {values : List Datum}
    {early late : List Call} (emits : Emits first (.ok early))
    (continues : Emits second (wordedCalls values late)) :
    Emits (fun draft => first draft >>= second) (wordedCalls values (early ++ late)) := by
  have alone : Emits first (wordedCalls [] early) := emits
  exact emits_append alone continues

private theorem cons_wordedCalls (values : List Datum) (call : Call) (calls : List Call) :
    (do return call :: (← wordedCalls values calls)) = wordedCalls values (call :: calls) := by
  unfold wordedCalls
  cases Datum.checkWords values <;> rfl

private theorem result_worded (values : List Datum) :
    (worded values).result = (Datum.checkWords values).mapError .number := rfl

theorem result_takeNames (key : String) (value : Option Datum) :
    (takeNames key value).result =
      (Datum.checkWords (nameData value)).mapError .number >>= fun _ => .ok (namesIn value) := by
  simp [takeNames, result_worded]

theorem result_takePairs (metadata : Metadata) (key : String) :
    (takePairs metadata key).result =
      (Datum.checkWords (pairData (entriesIn (metadata.get? key)))).mapError .number >>= fun _ =>
        .ok ((entriesIn (metadata.get? key)).map fun (name, value) => (name.text, value.text)) := by
  simp [takePairs, result_worded]

theorem result_takeValues (metadata : Metadata) (key : String) :
    (takeValues metadata key).result =
      (Datum.checkWords (valueData (entriesIn (metadata.get? key)))).mapError .number >>= fun _ =>
        .ok ((entriesIn (metadata.get? key)).map fun (name, value) => (name.text, value.toConstant)) := by
  simp [takeValues, result_worded]

private theorem overlongAll?_valueData_cons (entry : Datum × Datum) (rest : List (Datum × Datum)) :
    Datum.overlongAll? (valueData (entry :: rest)) =
      (entry.1.overlong?.or (Datum.overlongAll? entry.2.worded?.toList)).or (Datum.overlongAll? (valueData rest)) := by
  cases worded : entry.2.worded? <;> simp [valueData, worded, Datum.overlongAll?, Option.or_assoc]

private theorem mapM_namedConstant (entries : List (Datum × Datum)) :
    entries.mapM Datum.namedConstant =
      Datum.checkWords (valueData entries) >>= fun _ =>
        .ok (entries.map fun (name, value) => (name.text, value.toConstant)) := by
  induction entries with
  | nil => rfl
  | cons entry rest ih =>
    rw [List.mapM_cons, ih]
    simp only [Datum.namedConstant, Datum.constant, Datum.checkWords, overlongAll?_valueData_cons]
    cases name : entry.1.overlong? with
    | some digits => simp [Datum.overlongAll?, name]
    | none =>
      cases worded : Datum.overlongAll? entry.2.worded?.toList with
      | some digits => simp [Datum.overlongAll?, name]
      | none => cases later : Datum.overlongAll? (valueData rest) <;> simp [Datum.overlongAll?, name]

/-- The values under a key are taken one after the other, each as the constant that it stands for. -/
theorem result_takeValues_mapM (metadata : Metadata) (key : String) :
    (takeValues metadata key).result =
      ((entriesIn (metadata.get? key)).mapM Datum.namedConstant).mapError ReadFault.number := by
  rw [result_takeValues, mapM_namedConstant]
  cases Datum.checkWords (valueData (entriesIn (metadata.get? key))) <;> rfl

/-- The superclass that front matter gives to a unit of a kind. -/
def superclassCalls (metadata : Metadata) (kind : RubyUnit.Kind) (unit : String) : List Call :=
  match (metadata.get? "inherits_from").filter Datum.isGiven, kind with
  | some superclass, .cls => [.setSuperclass unit superclass.text]
  | _, _ => []

/-- The attributes that front matter declares of a unit. -/
def declaredCall (metadata : Metadata) (unit : String) (accessor : Accessor) (key : String) : Call :=
  .addDeclared unit accessor
    ((namesIn (FrontMatter.nested? metadata "attr" key) ++
        namesIn (metadata.get? accessor.keyword)).map fun name =>
      String.ofList (Text.dropStart [':'] name.toList))

/-- The calls that front matter makes for the unit that a text opens first. -/
def frontMatterCalls (metadata : Metadata) (kind : RubyUnit.Kind) (unit : String) : List Call :=
  superclassCalls metadata kind unit ++
    ([declaredCall metadata unit .reader "reader"] ++
    ([declaredCall metadata unit .writer "writer"] ++
    ([declaredCall metadata unit .both "accessor"] ++
    ((namesIn (metadata.get? "include")).map (.addInclude unit) ++
    ((namesIn (metadata.get? "extend")).map (.addExtend unit) ++
    (((entriesIn (metadata.get? "constants")).map fun (name, value) =>
      .addConstant unit name.text value.toConstant) ++
    (((entriesIn (metadata.get? "class_variables")).map fun (name, value) =>
      .addClassVariable unit name.text value.toConstant) ++
    (((entriesIn (metadata.get? "aliases")).map fun (new, old) =>
      .addAlias unit new.text old.text) ++
    (entriesIn (metadata.get? "alias_method")).map fun (new, old) =>
      .addAliasMethod unit new.text old.text))))))))

/-- The value whose text is the superclass that front matter gives to a unit of a kind. -/
def superclassData (metadata : Metadata) (kind : RubyUnit.Kind) : List Datum :=
  match (metadata.get? "inherits_from").filter Datum.isGiven, kind with
  | some superclass, .cls => [superclass]
  | _, _ => []

/-- The values whose texts are the attributes that front matter declares. -/
def declaredData (metadata : Metadata) (accessor : Accessor) (key : String) : List Datum :=
  nameData (FrontMatter.nested? metadata "attr" key) ++ nameData (metadata.get? accessor.keyword)

/-- The values whose texts front matter gives to the unit that a text opens first. -/
def frontMatterData (metadata : Metadata) (kind : RubyUnit.Kind) : List Datum :=
  superclassData metadata kind ++
    (declaredData metadata .reader "reader" ++
    (declaredData metadata .writer "writer" ++
    (declaredData metadata .both "accessor" ++
    (nameData (metadata.get? "include") ++
    (nameData (metadata.get? "extend") ++
    (valueData (entriesIn (metadata.get? "constants")) ++
    (valueData (entriesIn (metadata.get? "class_variables")) ++
    (pairData (entriesIn (metadata.get? "aliases")) ++
    pairData (entriesIn (metadata.get? "alias_method"))))))))))

/-- Front matter whose integers can all be written. -/
def Expressible (metadata : Metadata) : Prop := ∀ entry ∈ metadata, entry.2.overlong? = none

theorem overlongEntries?_eq_none_iff {entries : List (Datum × Datum)} :
    Datum.overlongEntries? entries = none ↔
      ∀ entry ∈ entries, entry.1.overlong? = none ∧ entry.2.overlong? = none := by
  induction entries with
  | nil => simp [Datum.overlongEntries?]
  | cons entry rest ih => simp [Datum.overlongEntries?, Option.or_eq_none_iff, ih]

private theorem worded_entriesIn {value : Option Datum} (can : ∀ datum ∈ value, datum.overlong? = none) :
    ∀ entry ∈ entriesIn value, entry.1.overlong? = none ∧ entry.2.overlong? = none := by
  unfold entriesIn
  split
  · next entries =>
    have held := can _ rfl
    rw [Datum.overlong?] at held
    exact overlongEntries?_eq_none_iff.mp held
  · simp

theorem worded_nameData {value : Option Datum} (can : ∀ datum ∈ value, datum.overlong? = none) :
    Worded (nameData value) := by
  unfold nameData
  split
  · simp
  · simp
  · next items =>
    have held := can _ rfl
    rw [Datum.overlong?, overlongAll?_eq_none_iff] at held
    exact fun item member => held item (List.mem_of_mem_filter member)
  · next items =>
    have held := can _ rfl
    rw [Datum.overlong?, overlongAll?_eq_none_iff] at held
    exact fun item member => held item (List.mem_of_mem_filter member)
  · next entries =>
    intro key member
    obtain ⟨entry, listed, rfl⟩ := List.mem_map.mp member
    exact (worded_entriesIn can entry listed).1
  · next other _ _ _ _ =>
    rintro item (_ | ⟨_, ⟨⟩⟩)
    exact can _ rfl

private theorem worded_pairData {value : Option Datum} (can : ∀ datum ∈ value, datum.overlong? = none) :
    Worded (pairData (entriesIn value)) := by
  intro item member
  obtain ⟨entry, listed, inside⟩ := List.mem_flatMap.mp member
  obtain ⟨key, held⟩ := worded_entriesIn can entry listed
  simp only [List.mem_cons, List.not_mem_nil, or_false] at inside
  rcases inside with rfl | rfl
  · exact key
  · exact held

private theorem worded_valueData {value : Option Datum} (can : ∀ datum ∈ value, datum.overlong? = none) :
    Worded (valueData (entriesIn value)) := by
  intro item member
  obtain ⟨entry, listed, inside⟩ := List.mem_flatMap.mp member
  obtain ⟨key, held⟩ := worded_entriesIn can entry listed
  rcases List.mem_cons.mp inside with rfl | inside
  · exact key
  · have same : item = entry.2 := by
      unfold Datum.worded? at inside
      split at inside
      · cases inside
      · exact List.mem_singleton.mp inside
    exact same ▸ held

namespace Expressible

variable {metadata : Metadata} (expressible : Expressible metadata)
include expressible

theorem get? (key : String) : ∀ datum ∈ metadata.get? key, datum.overlong? = none :=
  fun _ found => expressible _ (Entries.mem_of_get? found)

private theorem nested? (outer inner : String) :
    ∀ datum ∈ FrontMatter.nested? metadata outer inner, datum.overlong? = none := by
  intro datum found
  unfold FrontMatter.nested? at found
  split at found
  · next entries held =>
    obtain ⟨entry, listed, rfl⟩ := Option.map_eq_some_iff.mp found
    have can := expressible.get? outer _ held
    rw [Datum.overlong?] at can
    exact (overlongEntries?_eq_none_iff.mp can entry (List.mem_of_find?_eq_some listed)).2
  · cases found

theorem checkWords_eq (key : String) : Datum.checkWords (nameData (metadata.get? key)) = .ok ⟨⟩ :=
  checkWords_eq_ok_iff.mpr (worded_nameData (expressible.get? key))

/-- What front matter says of a unit can be written if all of the front matter can. -/
theorem worded_frontMatterData (kind : RubyUnit.Kind) : Worded (frontMatterData metadata kind) := by
  have named (key : String) := worded_nameData (expressible.get? key)
  have paired (key : String) := worded_pairData (expressible.get? key)
  have valued (key : String) := worded_valueData (expressible.get? key)
  have declared (accessor : Accessor) (key : String) : Worded (declaredData metadata accessor key) :=
    worded_append.mpr ⟨worded_nameData (expressible.nested? "attr" key), named accessor.keyword⟩
  have superclass : Worded (superclassData metadata kind) := by
    unfold superclassData
    split
    · next superclass given =>
      rintro item (_ | ⟨_, ⟨⟩⟩)
      exact expressible.get? "inherits_from" _ (Option.filter_eq_some_iff.mp given).1
    · simp
  simp only [frontMatterData, worded_append]
  exact ⟨superclass, declared .reader "reader", declared .writer "writer", declared .both "accessor",
    named "include", named "extend", valued "constants", valued "class_variables", paired "aliases",
    paired "alias_method"⟩

end Expressible

/-- What front matter says of a unit. -/
theorem emits_applyFrontMatter (metadata : Metadata) (kind : RubyUnit.Kind) (unit : String) :
    Emits (fun draft => (applyFrontMatter metadata kind unit draft).result)
      (wordedCalls (frontMatterData metadata kind) (frontMatterCalls metadata kind unit)) := by
  have declares (accessor : Accessor) (key : String) :
      Emits (fun draft =>
          (Datum.checkWords (nameData (FrontMatter.nested? metadata "attr" key))).mapError .number >>= fun _ =>
          (Datum.checkWords (nameData (metadata.get? accessor.keyword))).mapError .number >>= fun _ =>
          (draft.addDeclared unit accessor
          ((namesIn (FrontMatter.nested? metadata "attr" key) ++
            namesIn (metadata.get? accessor.keyword)).map fun name =>
              String.ofList (Text.dropStart [':'] name.toList))).mapError ReadFault.refused)
        (wordedCalls (declaredData metadata accessor key) [declaredCall metadata unit accessor key]) := by
    have adds : Emits (fun draft => (draft.addDeclared unit accessor
          ((namesIn (FrontMatter.nested? metadata "attr" key) ++
            namesIn (metadata.get? accessor.keyword)).map fun name =>
              String.ofList (Text.dropStart [':'] name.toList))).mapError ReadFault.refused)
        (.ok [declaredCall metadata unit accessor key]) := emits_call fun draft => rfl
    have both := emits_append (emits_worded (nameData (FrontMatter.nested? metadata "attr" key)) emits_nothing)
      (emits_worded (nameData (metadata.get? accessor.keyword)) adds)
    simp only [bind_assoc, Except.ok_bind, List.nil_append] at both
    exact both
  have content := emits_append (declares .reader "reader") <|
    emits_append (declares .writer "writer") <|
    emits_append (declares .both "accessor") <|
    emits_append (emits_worded (nameData (metadata.get? "include"))
      (emits_forEach ReadFault.refused (.addInclude unit) (fun _ _ => rfl)
        (namesIn (metadata.get? "include")))) <|
    emits_append (emits_worded (nameData (metadata.get? "extend"))
      (emits_forEach ReadFault.refused (.addExtend unit) (fun _ _ => rfl)
        (namesIn (metadata.get? "extend")))) <|
    emits_append (emits_worded (valueData (entriesIn (metadata.get? "constants")))
      (emits_forEach ReadFault.refused (fun (name, value) => .addConstant unit name value) (fun _ _ => rfl)
        ((entriesIn (metadata.get? "constants")).map
          fun (name, value) => (name.text, value.toConstant)))) <|
    emits_append (emits_worded (valueData (entriesIn (metadata.get? "class_variables")))
      (emits_forEach ReadFault.refused (fun (name, value) => .addClassVariable unit name value) (fun _ _ => rfl)
        ((entriesIn (metadata.get? "class_variables")).map
          fun (name, value) => (name.text, value.toConstant)))) <|
    emits_append (emits_worded (pairData (entriesIn (metadata.get? "aliases")))
      (emits_forEach ReadFault.refused (fun (new, old) => .addAlias unit new old) (fun _ _ => rfl)
        ((entriesIn (metadata.get? "aliases")).map fun (new, old) => (new.text, old.text))))
    (emits_worded (pairData (entriesIn (metadata.get? "alias_method")))
      (emits_forEach ReadFault.refused (fun (new, old) => .addAliasMethod unit new old) (fun _ _ => rfl)
        ((entriesIn (metadata.get? "alias_method")).map fun (new, old) => (new.text, old.text))))
  unfold frontMatterCalls frontMatterData superclassCalls superclassData
  simp only [List.map_map, bind_assoc] at content
  intro draft next
  unfold applyFrontMatter
  cases given : (metadata.get? "inherits_from").filter Datum.isGiven with
  | none =>
    simp only [Outcome.result_bind, Outcome.result_pure, Except.ok_bind, result_takeNames, result_takeValues,
      result_takePairs, bind_assoc]
    exact content draft next
  | some superclass =>
    cases kind with
    | mod =>
      simp only [Outcome.result_bind, Except.ok_bind, Outcome.result_warn, result_takeNames,
        result_takeValues, result_takePairs, bind_assoc]
      exact content draft next
    | cls =>
      simp only [Outcome.result_bind, Except.ok_bind, result_worded, result_takeNames, result_takeValues,
        result_takePairs, bind_assoc]
      have named := emits_worded [superclass] (Draft.emits_setSuperclass .refused unit superclass.text)
      have both := emits_append named content draft next
      simp only [bind_assoc] at both
      exact both

/-- A call that changes a unit and opens none. -/
structure Changes (key : String) (call : Call) : Prop where
  addressed : call.unit? = some key
  opens : call.opened? = none

/-- A call that front matter makes for a unit. -/
inductive Introduces (metadata : Metadata) (unit : String) : Call → Prop
  | superclass {superclass : Datum} (given : superclass.isGiven = true) :
    Introduces metadata unit (.setSuperclass unit superclass.text)
  | declared (accessor : Accessor) (names : List String) :
    Introduces metadata unit (.addDeclared unit accessor names)
  | included (name : String) : Introduces metadata unit (.addInclude unit name)
  | extended (name : String) : Introduces metadata unit (.addExtend unit name)
  | constant {name value : Datum} (listed : (name, value) ∈ entriesIn (metadata.get? "constants")) :
    Introduces metadata unit (.addConstant unit name.text value.toConstant)
  | classVariable {name value : Datum} (listed : (name, value) ∈ entriesIn (metadata.get? "class_variables")) :
    Introduces metadata unit (.addClassVariable unit name.text value.toConstant)
  | aliased {new old : Datum} (listed : (new, old) ∈ entriesIn (metadata.get? "aliases")) :
    Introduces metadata unit (.addAlias unit new.text old.text)
  | aliasedMethod {new old : Datum} (listed : (new, old) ∈ entriesIn (metadata.get? "alias_method")) :
    Introduces metadata unit (.addAliasMethod unit new.text old.text)

private theorem superclassCalls_introduce (metadata : Metadata) (kind : RubyUnit.Kind) (unit : String) :
    ∀ call ∈ superclassCalls metadata kind unit, Introduces metadata unit call := by
  unfold superclassCalls
  split
  · next superclass given =>
    rw [List.forall_mem_singleton]
    exact .superclass (Option.filter_eq_some_iff.mp given).2
  · simp

theorem frontMatterCalls_introduce (metadata : Metadata) (kind : RubyUnit.Kind) (unit : String) :
    ∀ call ∈ frontMatterCalls metadata kind unit, Introduces metadata unit call := by
  intro call made
  simp only [frontMatterCalls, List.mem_append, List.mem_singleton, List.mem_map] at made
  rcases made with superclass | rfl | rfl | rfl | ⟨name, _, rfl⟩ | ⟨name, _, rfl⟩ | ⟨_, listed, rfl⟩ |
    ⟨_, listed, rfl⟩ | ⟨_, listed, rfl⟩ | ⟨_, listed, rfl⟩
  · exact superclassCalls_introduce metadata kind unit call superclass
  · exact .declared .reader _
  · exact .declared .writer _
  · exact .declared .both _
  · exact .included name
  · exact .extended name
  · exact .constant listed
  · exact .classVariable listed
  · exact .aliased listed
  · exact .aliasedMethod listed

theorem Introduces.changes {metadata : Metadata} {unit : String} {call : Call}
    (introduces : Introduces metadata unit call) : Changes unit call := by
  cases introduces <;> exact ⟨rfl, rfl⟩

theorem frontMatterCalls_changes (metadata : Metadata) (kind : RubyUnit.Kind) (key : String) :
    ∀ call ∈ frontMatterCalls metadata kind key, Changes key call :=
  fun call made => (frontMatterCalls_introduce metadata kind key call made).changes

/-! ## Units -/

def unitKind (metadata : Metadata) (title : List Char) : Except ReadFault RubyUnit.Kind :=
  match kindInTitle? title with
  | some (kind, _) => .ok kind
  | none => declaredKind metadata

def unitPath (title : List Char) : List String :=
  (Text.splitScope (((kindInTitle? title).map (·.2)).getD title)).map trimmedText

def unitKey (title : List Char) : String := Text.joinScope (unitPath title)

/-- The calls that make sure that the parts of a scope exist. -/
def holderCalls (above : List String) : List String → List Call
  | [] => []
  | name :: rest => .ensureHolder name above :: holderCalls (above ++ [name]) rest

def openingCalls (kind : RubyUnit.Kind) (path : List String) : List Call :=
  holderCalls [] path.dropLast ++
    [.addUnit (path.getLast?.getD "") kind path.dropLast,
      .setVisibility (Text.joinScope path) .pub, .exitSingleton (Text.joinScope path)]

/-- A call that opens a unit of a kind by a path. -/
inductive OpensPath (kind : RubyUnit.Kind) (path : List String) : Call → Prop
  | holder {outer inner : List String} {name : String} (within : outer ++ name :: inner = path.dropLast) :
    OpensPath kind path (.ensureHolder name outer)
  | unit : OpensPath kind path (.addUnit (path.getLast?.getD "") kind path.dropLast)
  | visibility : OpensPath kind path (.setVisibility (Text.joinScope path) .pub)
  | leave : OpensPath kind path (.exitSingleton (Text.joinScope path))

/-- Each part of a scope is held by the parts before it. -/
theorem exists_of_mem_holderCalls {above scope : List String} {call : Call} (made : call ∈ holderCalls above scope) :
    ∃ outer name inner, outer ++ name :: inner = scope ∧ call = .ensureHolder name (above ++ outer) := by
  induction scope generalizing above with
  | nil => cases made
  | cons first rest ih =>
    rcases List.mem_cons.mp made with rfl | later
    · exact ⟨[], first, rest, rfl, by rw [List.append_nil]⟩
    · obtain ⟨outer, name, inner, rfl, rfl⟩ := ih later
      exact ⟨first :: outer, name, inner, rfl, by rw [List.append_assoc, List.singleton_append]⟩

theorem openingCalls_open (kind : RubyUnit.Kind) (path : List String) :
    ∀ call ∈ openingCalls kind path, OpensPath kind path call := by
  intro call made
  rcases List.mem_append.mp made with holder | own
  · obtain ⟨outer, name, inner, within, rfl⟩ := exists_of_mem_holderCalls holder
    exact .holder within
  · simp only [List.mem_cons, List.not_mem_nil, or_false] at own
    rcases own with rfl | rfl | rfl
    · exact .unit
    · exact .visibility
    · exact .leave

/-- The calls that a unit heading makes; the first one also applies the front matter. -/
def unitCalls (metadata : Metadata) (opened : Bool) (title : List Char) :
    Except ReadFault (List Call) := do
  let kind ← unitKind metadata title
  if (unitPath title).contains "" then
    .error (.badUnitHeading (String.ofList (((kindInTitle? title).map (·.2)).getD title)))
  else
    wordedCalls (if opened then [] else frontMatterData metadata kind)
      (openingCalls kind (unitPath title) ++
        if opened then [] else frontMatterCalls metadata kind (unitKey title))

/-- A title opens a unit if the kind of the unit is known, no part of its path is empty, and front matter
that it applies can be written. -/
theorem unitCalls_eq_ok_iff {metadata : Metadata} {opened : Bool} {title : List Char} {calls : List Call} :
    unitCalls metadata opened title = .ok calls ↔
      ∃ kind, unitKind metadata title = .ok kind ∧ "" ∉ unitPath title ∧
        Worded (if opened then [] else frontMatterData metadata kind) ∧
        calls = openingCalls kind (unitPath title) ++
          if opened then [] else frontMatterCalls metadata kind (unitKey title) := by
  unfold unitCalls
  rw [Except.bind_eq_ok_iff]
  refine exists_congr fun kind => and_congr_right fun _ => ?_
  by_cases whole : "" ∈ unitPath title
  · simp [whole]
  · simp [whole, wordedCalls_eq_ok_iff]

/-- Each call of a unit heading opens the unit by its path, or it is from front matter that the heading
applies. -/
theorem unitCalls_cases {metadata : Metadata} {opened : Bool} {title : List Char} {calls : List Call}
    (success : unitCalls metadata opened title = .ok calls) :
    "" ∉ unitPath title ∧ ∃ kind, ∀ call ∈ calls,
      OpensPath kind (unitPath title) call ∨ opened = false ∧ Introduces metadata (unitKey title) call := by
  obtain ⟨kind, -, whole, -, rfl⟩ := unitCalls_eq_ok_iff.mp success
  refine ⟨whole, kind, fun call made => ?_⟩
  rcases List.mem_append.mp made with opening | front
  · exact .inl (openingCalls_open kind _ call opening)
  · cases opened with
    | true => cases front
    | false => exact .inr ⟨rfl, frontMatterCalls_introduce metadata kind _ call front⟩

private theorem emits_ensureHolders (above scope : List String) :
    Emits (fun draft => .ok (ensureHolders above draft scope))
      (.ok (holderCalls above scope) : Except ReadFault (List Call)) := by
  rw [Draft.emits_ok_iff]
  induction scope generalizing above with
  | nil => simp [ensureHolders, holderCalls, eq_comm]
  | cons name rest ih =>
    intro draft next
    rw [holderCalls, ensureHolders, ih, Draft.runs_cons]
    constructor
    · intro run
      exact ⟨_, _, rfl, run⟩
    · rintro ⟨middle, reply, success, run⟩
      cases success
      exact run

theorem unitPath_ne_nil (title : List Char) : unitPath title ≠ [] := by
  simp [unitPath, Text.splitScope_ne_nil]

/-- The key of a unit is the qualified name in its title. -/
theorem keyOf_unitPath (title : List Char) :
    Draft.keyOf ((unitPath title).getLast?.getD "") (unitPath title).dropLast = unitKey title := by
  unfold Draft.keyOf unitKey
  rw [List.getLast?_eq_some_getLast (unitPath_ne_nil title), Option.getD_some,
    List.dropLast_append_getLast]

/-- What opening a unit makes of a draft. -/
def openedDraft (metadata : Metadata) (opened : Bool) (kind : RubyUnit.Kind) (path : List String)
    (draft : Draft) : Except ReadFault Draft :=
  ((ensureHolders [] draft path.dropLast).addUnit (path.getLast?.getD "") kind
      path.dropLast).mapError ReadFault.refused >>= fun added =>
  (added.1.setVisibility added.2 .pub).mapError ReadFault.refused >>= fun draft =>
  (draft.exitSingleton added.2).mapError ReadFault.refused >>= fun draft =>
  if opened then .ok draft else (applyFrontMatter metadata kind added.2 draft).result

private theorem emits_openedDraft (metadata : Metadata) (opened : Bool) (kind : RubyUnit.Kind)
    (title : List Char) :
    Emits (openedDraft metadata opened kind (unitPath title))
      (wordedCalls (if opened then [] else frontMatterData metadata kind)
        (openingCalls kind (unitPath title) ++
          if opened then [] else frontMatterCalls metadata kind (unitKey title))) := by
  have applies : Emits (fun draft => if opened then .ok draft
        else (applyFrontMatter metadata kind (unitKey title) draft).result)
      (wordedCalls (if opened then [] else frontMatterData metadata kind)
        (if opened then [] else frontMatterCalls metadata kind (unitKey title))) := by
    cases opened with
    | true => exact emits_nothing
    | false => exact emits_applyFrontMatter metadata kind (unitKey title)
  have leaves : Emits (fun draft => (draft.exitSingleton (unitKey title)).mapError ReadFault.refused)
      (.ok [.exitSingleton (unitKey title)]) := emits_call fun _ => rfl
  have resets : Emits (fun draft => (draft.setVisibility (unitKey title) .pub).mapError ReadFault.refused)
      (.ok [.setVisibility (unitKey title) .pub]) := emits_call fun _ => rfl
  have resets := emits_before resets (emits_before leaves applies)
  rw [← keyOf_unitPath title] at resets
  have adds := Draft.emits_addUnit ReadFault.refused ((unitPath title).getLast?.getD "") kind
    (unitPath title).dropLast
      (fun unit draft => (draft.setVisibility unit .pub).mapError ReadFault.refused >>= fun draft =>
        (draft.exitSingleton unit).mapError ReadFault.refused >>= fun draft =>
        if opened then .ok draft else (applyFrontMatter metadata kind unit draft).result) resets
  rw [cons_wordedCalls] at adds
  have opens := emits_before (emits_ensureHolders [] (unitPath title).dropLast) adds
  rw [keyOf_unitPath] at opens
  simp only [openingCalls, List.append_assoc]
  exact opens

/-- The key that a unit gets is the one that it is named by. -/
theorem openedDraft_bind (metadata : Metadata) (opened : Bool) (kind : RubyUnit.Kind)
    {path : List String} (draft : Draft) (nonempty : path ≠ [])
    (finish : String → Draft → Except ReadFault Position) :
    (((ensureHolders [] draft path.dropLast).addUnit (path.getLast?.getD "") kind
        path.dropLast).mapError ReadFault.refused >>= fun added =>
      (added.1.setVisibility added.2 .pub).mapError ReadFault.refused >>= fun draft =>
      (draft.exitSingleton added.2).mapError ReadFault.refused >>= fun draft =>
      if opened then finish added.2 draft
      else (applyFrontMatter metadata kind added.2 draft).result >>= finish added.2) =
      openedDraft metadata opened kind path draft >>= finish (Text.joinScope path) := by
  have keyed : Draft.keyOf (path.getLast?.getD "") path.dropLast = Text.joinScope path := by
    unfold Draft.keyOf
    rw [List.getLast?_eq_some_getLast nonempty, Option.getD_some, List.dropLast_append_getLast]
  unfold openedDraft
  cases opens : (ensureHolders [] draft path.dropLast).addUnit (path.getLast?.getD "") kind
      path.dropLast with
  | error refusal => rfl
  | ok added =>
    obtain ⟨middle, key⟩ := added
    obtain ⟨rfl, _⟩ := Draft.addUnit_touches opens
    rw [keyed]
    simp only [Except.mapError_ok, Except.ok_bind, bind_assoc]
    cases opened <;> rfl

theorem openUnit_result (metadata : Metadata) (position : Position) (title : List Char) :
    (openUnit metadata position title).result = (do
      let kind ← unitKind metadata title
      if (unitPath title).contains "" then
        .error (.badUnitHeading (String.ofList (((kindInTitle? title).map (·.2)).getD title)))
      else
        openedDraft metadata position.opened kind (unitPath title) position.draft >>= fun draft =>
        .ok { position with draft, unit := some (unitKey title), opened := true, method := none }) := by
  have keyed (kind : RubyUnit.Kind) := openedDraft_bind metadata position.opened kind position.draft
    (unitPath_ne_nil title)
    fun unit draft => .ok { position with draft, unit := some unit, opened := true, method := none }
  unfold openUnit unitKind unitKey unitPath at *
  cases heads : kindInTitle? title with
  | some head =>
    simp only [Outcome.result_bind, Outcome.result_pure, Except.ok_bind, Outcome.result_ite,
      Option.map_some, Option.getD_some, Outcome.result_fail, call, Outcome.result_ofExcept]
    split
    · rfl
    · rw [heads] at keyed
      exact keyed head.1
  | none =>
    cases declaredKind metadata with
    | error fault => rfl
    | ok kind =>
      simp only [Outcome.result_bind, Outcome.result_pure, Except.ok_bind, Outcome.result_ite,
        Option.map_none, Option.getD_none, Outcome.result_fail, call, Outcome.result_ofExcept,
        Outcome.result_liftM]
      split
      · rfl
      · rw [heads] at keyed
        exact keyed kind

/-- A unit is opened exactly if the calls of its heading can be run. -/
theorem openUnit_eq_ok_iff {metadata : Metadata} {position next : Position} {title : List Char} :
    (openUnit metadata position title).result = .ok next ↔
      ∃ calls draft, unitCalls metadata position.opened title = .ok calls ∧
        position.draft.Runs calls draft ∧
        next = { position with draft, unit := some (unitKey title), opened := true, method := none } := by
  rw [openUnit_result]
  unfold unitCalls
  cases unitKind metadata title with
  | error fault => simp
  | ok kind =>
    simp only [Except.ok_bind]
    split
    · simp
    · exact (emits_openedDraft metadata position.opened kind title).place_eq_ok_iff position.draft _ _

end LiterateRuby.Literate
