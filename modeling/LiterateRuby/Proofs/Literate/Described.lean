import LiterateRuby.Proofs.Draft.Matter
import LiterateRuby.Proofs.Literate.FirstUnit

/-! # The unit that front matter describes

Headings and the lines under them say nothing of the matter of a unit: its superclass, its mixins and its
aliases come from front matter, which is applied where the first unit is opened. So the unit of the first
stretch has the matter that front matter describes (`matter_of_first`), and every other unit has none
(`matter_of_later`).
-/

namespace LiterateRuby.Literate

open Draft (Call slotRun? slotRun?_append)
open FrontMatter (namesIn entriesIn)

/-! ## What front matter says -/

/-- The pairs of names under a key of front matter; a name that is given twice keeps its place and takes the
last value. -/
def describedPairs (metadata : Metadata) (key : String) : Entries String String :=
  Entries.ofPairs ((entriesIn (metadata.get? key)).map fun (new, old) => (new.text, old.text))

/-- The matter that front matter describes for a unit of a kind. -/
def describedMatter (metadata : Metadata) (kind : RubyUnit.Kind) : Matter where
  superclass :=
    match kind with
    | .cls => ((metadata.get? "inherits_from").filter Datum.isGiven).map Datum.text
    | .mod => none
  included := Text.distinct (namesIn (metadata.get? "include"))
  extended := Text.distinct (namesIn (metadata.get? "extend"))
  aliases := describedPairs metadata "aliases"
  aliasMethods := describedPairs metadata "alias_method"

/-- Calls that each change one part of the matter change it as a whole. -/
theorem foldl_onMatter {made : α → Call} {kind : RubyUnit.Kind} {place : β → Matter} {step : β → α → β}
    (acts : ∀ value item, (made item).onMatter kind (place value) = place (step value item)) (items : List α)
    (start : β) : (items.map made).foldl (Call.onMatter kind) (place start) = place (items.foldl step start) := by
  induction items generalizing start with
  | nil => rfl
  | cons item rest ih => rw [List.map_cons, List.foldl_cons, acts, ih, List.foldl_cons]

/-- Calls that say nothing of the matter leave it as it is. -/
theorem foldl_onMatter_of_silent {calls : List Call} (silent : ∀ call ∈ calls, call.Silent)
    (kind : RubyUnit.Kind) (matter : Matter) : calls.foldl (Call.onMatter kind) matter = matter := by
  induction calls with
  | nil => rfl
  | cons call rest ih =>
    rw [List.foldl_cons, (silent call List.mem_cons_self).onMatter]
    exact ih fun other member => silent other (List.mem_cons_of_mem _ member)

private theorem describedPairs_eq (metadata : Metadata) (key : String) :
    describedPairs metadata key = (entriesIn (metadata.get? key)).foldl
      (fun (held : Entries String String) pair => held.put pair.1.text pair.2.text) [] := by
  rw [describedPairs, Entries.ofPairs, List.foldl_map]

/-- Front matter gives a fresh unit the matter that it describes. -/
theorem foldl_frontMatterCalls (metadata : Metadata) (kind : RubyUnit.Kind) (key : String) :
    (frontMatterCalls metadata kind key).foldl (Call.onMatter kind) {} = describedMatter metadata kind := by
  have superclass : (superclassCalls metadata kind key).foldl (Call.onMatter kind) {} =
      { superclass := (describedMatter metadata kind).superclass } := by
    unfold superclassCalls describedMatter
    cases (metadata.get? "inherits_from").filter Datum.isGiven <;> cases kind <;> rfl
  have declared (accessor : Accessor) (name : String) :
      ∀ call ∈ [declaredCall metadata key accessor name], call.Silent := by
    rw [List.forall_mem_singleton]
    trivial
  have constants : ∀ call ∈ (entriesIn (metadata.get? "constants")).map fun (name, value) =>
      Call.addConstant key name.text value.toConstant, call.Silent := by
    rw [List.forall_mem_map]
    exact fun _ _ => trivial
  have classVariables : ∀ call ∈ (entriesIn (metadata.get? "class_variables")).map fun (name, value) =>
      Call.addClassVariable key name.text value.toConstant, call.Silent := by
    rw [List.forall_mem_map]
    exact fun _ _ => trivial
  -- the parts are filled one after the other, each from nothing
  have included (superclass : Option String) := @foldl_onMatter _ _ (.addInclude key) kind
    (fun included => { superclass, included }) Draft.appendOnce (fun _ _ => rfl)
    (namesIn (metadata.get? "include")) []
  have extended (superclass : Option String) (included : List String) := @foldl_onMatter _ _ (.addExtend key)
    kind (fun extended => { superclass, included, extended }) Draft.appendOnce (fun _ _ => rfl)
    (namesIn (metadata.get? "extend")) []
  have aliases (superclass : Option String) (included extended : List String) :=
    @foldl_onMatter _ _ (fun pair : Datum × Datum => .addAlias key pair.1.text pair.2.text) kind
      (fun aliases => { superclass, included, extended, aliases })
      (fun held pair => held.put pair.1.text pair.2.text) (fun _ _ => rfl)
      (entriesIn (metadata.get? "aliases")) []
  have aliasMethods (superclass : Option String) (included extended : List String)
      (aliases : Entries String String) :=
    @foldl_onMatter _ _ (fun pair : Datum × Datum => .addAliasMethod key pair.1.text pair.2.text) kind
      (fun aliasMethods => { superclass, included, extended, aliases, aliasMethods })
      (fun held pair => held.put pair.1.text pair.2.text) (fun _ _ => rfl)
      (entriesIn (metadata.get? "alias_method")) []
  simp only [frontMatterCalls, List.foldl_append, superclass, foldl_onMatter_of_silent (declared _ _),
    included, extended, foldl_onMatter_of_silent constants, foldl_onMatter_of_silent classVariables, aliases,
    aliasMethods]
  simp only [describedMatter, describedPairs_eq]
  rfl

/-! ## What headings say -/

private theorem textCalls_silent {unit : String} {method : Option MethodTitle} {lines : List (List Char)}
    {calls : List Call} (success : textCalls unit method lines = .ok calls) : ∀ call ∈ calls, call.Silent := by
  rcases textCalls_cases success with ⟨title, rfl, rfl⟩ | ⟨rfl, declares⟩
  · simp [Call.Silent]
  · intro call made
    cases declares call made <;> trivial

private theorem openingCalls_silent (kind : RubyUnit.Kind) (path : List String) :
    ∀ call ∈ openingCalls kind path, call.Silent := by
  intro call made
  cases openingCalls_open kind path call made <;> trivial

/-- Once a unit is open, no section says anything of the matter of any unit. -/
theorem sectionsCalls_silent {metadata : Metadata} {unit : String} {parts : List Section} {calls : List Call}
    (success : sectionsCalls metadata (some unit) parts = .ok calls) : ∀ call ∈ calls, call.Silent := by
  induction parts generalizing unit calls with
  | nil =>
    cases success
    simp
  | cons part rest ih =>
    obtain ⟨opening, inside, method, content, later, opens, holds, follows, rfl⟩ :=
      sectionsCalls_cons_eq_ok_iff.mp success
    simp only [List.mem_append]
    rintro call (made | made | made)
    · rcases headingCalls_cases opens with ⟨_, _, _, makes⟩ | ⟨_, _, moves⟩
      · obtain ⟨kind, _, _, _, rfl⟩ := unitCalls_eq_ok_iff.mp makes
        simp only [Option.isSome_some, ↓reduceIte, List.append_nil] at made
        exact openingCalls_silent kind _ call made
      · cases moves call made <;> trivial
    · exact textCalls_silent holds call made
    · exact ih follows call made

/-- The first section opens its unit, front matter describes this unit, and the rest says nothing of the
matter of any unit. -/
theorem sectionsCalls_described {metadata : Metadata} {part : Section} {rest : List Section}
    {calls : List Call} (success : sectionsCalls metadata none (part :: rest) = .ok calls) :
    part.heading.level = 1 ∧ ∃ kind tail, unitKind metadata part.heading.title = .ok kind ∧
      calls = openingCalls kind (unitPath part.heading.title) ++
        (frontMatterCalls metadata kind (unitKey part.heading.title) ++ tail) ∧
      ∀ call ∈ tail, call.Silent := by
  obtain ⟨_, inside, method, content, later, heads, text, follows, rfl⟩ :=
    sectionsCalls_cons_eq_ok_iff.mp success
  obtain ⟨level, rfl, rfl, opens⟩ | ⟨_, absent, _⟩ := headingCalls_cases heads
  · obtain ⟨kind, kinded, _, _, rfl⟩ := unitCalls_eq_ok_iff.mp opens
    refine ⟨level, kind, content ++ later, kinded, by simp, fun call made => ?_⟩
    exact (List.mem_append.mp made).elim (textCalls_silent text call) (sectionsCalls_silent follows call)
  · cases absent

/-! ## The units of a document -/

/-- Opening a unit and describing it gives it the matter that front matter describes. -/
theorem slotRun?_described {metadata : Metadata} {title : List Char} {kind : RubyUnit.Kind} {tail : List Call}
    {unit : UnitDraft} (silent : ∀ call ∈ tail, call.Silent)
    (run : slotRun? (unitKey title) none
      (openingCalls kind (unitPath title) ++ (frontMatterCalls metadata kind (unitKey title) ++ tail)) =
        some (some unit)) : unit.matter = describedMatter metadata kind := by
  rw [slotRun?_append] at run
  obtain ⟨opened, opens, run⟩ := Option.bind_eq_some_iff.mp run
  rw [slotRun?_append] at run
  obtain ⟨described, describes, run⟩ := Option.bind_eq_some_iff.mp run
  have addressed : ∃ call ∈ openingCalls kind (unitPath title), call.unit? = some (unitKey title) :=
    ⟨.exitSingleton (unitKey title), by simp [openingCalls, unitKey], rfl⟩
  obtain ⟨opened, rfl⟩ := Option.isSome_iff_exists.mp (Draft.slotRun?_isSome (.inr addressed) opens)
  obtain ⟨described, rfl⟩ := Option.isSome_iff_exists.mp (Draft.slotRun?_isSome (.inl rfl) describes)
  have fresh := Draft.slotRun?_of_silent (fun call made _ => openingCalls_silent kind _ call made) opens
  have kinded := @Draft.slotRun?_kinded (unitKey title) _ [] none opened (by simp) (fun _ => rfl) opens
  have own : kind = opened.kind := by
    refine kinded.agree kind (List.mem_append_right _ (List.mem_filterMap.mpr
      ⟨.addUnit ((unitPath title).getLast?.getD "") kind (unitPath title).dropLast, ?_, rfl⟩))
    exact List.mem_filter.mpr ⟨by simp [openingCalls], by simp [Call.unit?, keyOf_unitPath]⟩
  have told := Draft.slotRun?_matter (fun call made =>
    have changes := frontMatterCalls_changes metadata kind (unitKey title) call made
    ⟨changes.addressed, by
      have opens := changes.opens
      cases call <;> first | rfl | cases opens⟩) describes
  rw [fresh, ← own] at told
  have kept := Draft.slotRun?_of_silent (fun call made _ => silent call made) run
  rw [kept]
  exact told.trans (foldl_frontMatterCalls metadata kind (unitKey title))

variable {filename : Option String} {text : String} {document : Document}

/-- A unit of a document is the one that its name was collected as. -/
theorem exists_collected {calls : List Call} {draft : Draft} (run : (Draft.empty filename).Runs calls draft)
    (holds : Draft.Holds calls draft) {unit : RubyUnit} (member : unit ∈ draft.document.units) :
    ∃ held, unit = held.frozen ∧ unit.matter = held.matter ∧
      slotRun? unit.qualifiedName none calls = some (some held) := by
  obtain ⟨⟨key, held⟩, present, rfl⟩ := List.mem_map.mp member
  have found := Entries.get?_of_mem holds.sound.distinct present
  have sound := holds.sound.units key held found
  have keyed : held.frozen.qualifiedName = key := held.frozen_qualifiedName.trans sound.keyed
  have slot : slotRun? key none calls = some (some held) := (run.get? key).trans (congrArg some found)
  refine ⟨held, rfl, ?_, keyed ▸ slot⟩
  exact (Draft.slotRun?_settled (by simp) slot).frozen sound.superclass

/-- The unit that a text opens first has the matter that front matter describes. -/
theorem matter_of_first [DataFormat] (success : (read filename text).result = .ok document) {front : FrontMatter}
    (splits : FrontMatter.split (Text.trim (Text.unixLines text.toList)) = .ok front) {stretch : Stretch}
    (first : (stretchesOf filename text).head? = some stretch) :
    (∃ unit ∈ document.units, unit.qualifiedName = stretch.unit) ∧
      ∀ unit ∈ document.units, unit.qualifiedName = stretch.unit →
        unitKind front.metadata stretch.title = .ok unit.kind ∧
          unit.matter = describedMatter front.metadata unit.kind := by
  obtain ⟨calls, draft, made, run, holds, rfl⟩ := read_eq_ok_iff.mp success
  have listed : stretch ∈ stretchesOf filename text := List.mem_of_mem_head? first
  constructor
  · obtain ⟨call, inside, address⟩ := callsOf_opens made listed
    have key := holds.addressed call inside _ address
    rw [← holds.sound.names_eq] at key
    exact List.mem_map.mp key
  · intro unit member named
    obtain ⟨held, rfl, matter, slot⟩ := exists_collected run holds member
    rw [named] at slot
    have kinded := @Draft.slotRun?_kinded _ calls [] none held (by simp) (fun _ => rfl) slot
    have kind := unitKind_of_kinded kinded (callsOf_kinds splits made stretch.unit) listed rfl
    rw [kind_frozen]
    refine ⟨kind, matter.trans ?_⟩
    obtain ⟨_, parts, rest, also, _, told, follows, rfl⟩ := callsOf_cases made
    cases splits.symm.trans also
    rw [told] at first
    cases parts with
    | nil => cases first
    | cons part more =>
      obtain ⟨level, other, tail, kinds, rfl, silent⟩ := sectionsCalls_described follows
      rw [stretches, if_pos level] at first
      cases first
      cases kind.symm.trans kinds
      rw [slotRun?_append, Draft.slotRun?_of_elsewhere fun call made => by
        rw [documentCalls_unaddressed _ call made]
        exact (Option.some_ne_none _).symm] at slot
      exact slotRun?_described silent slot

/-- A unit that a text does not open first has no matter. -/
theorem matter_of_later [DataFormat] (success : (read filename text).result = .ok document) {unit : RubyUnit}
    (member : unit ∈ document.units)
    (later : (stretchesOf filename text).head?.map Stretch.unit ≠ some unit.qualifiedName) :
    unit.matter = {} := by
  obtain ⟨calls, draft, opens, run, holds, rfl⟩ := read_eq_ok_iff.mp success
  obtain ⟨held, rfl, matter, slot⟩ := exists_collected run holds member
  refine matter.trans (Draft.slotRun?_of_silent (fun call made addressed => ?_) slot)
  obtain ⟨front, parts, rest, _, _, told, follows, rfl⟩ := callsOf_cases opens
  rw [told] at later
  rcases List.mem_append.mp made with document | made
  · rw [documentCalls_unaddressed _ call document] at addressed
    cases addressed
  · cases parts with
    | nil =>
      cases follows
      cases made
    | cons part more =>
      obtain ⟨level, kind, tail, _, rfl, silent⟩ := sectionsCalls_described follows
      rw [stretches, if_pos level] at later
      simp only [List.mem_append] at made
      rcases made with opening | front | after
      · exact openingCalls_silent kind _ call opening
      · have changes := frontMatterCalls_changes _ kind _ call front
        exact absurd (changes.addressed.symm.trans addressed) later
      · exact silent call after

end LiterateRuby.Literate
