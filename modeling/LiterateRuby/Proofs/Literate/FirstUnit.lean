import LiterateRuby.Proofs.Draft.Kind
import LiterateRuby.Proofs.Literate.Methods

/-! # What front matter decides

Texts with the same body open the same units. They make the same calls to every unit but the one that they
open first, except for the kind of units whose titles name none: front matter declares it for all of them,
not just for the first unit (`read_of_same_body`).
-/

namespace LiterateRuby.Literate

open Draft (Call kindsOf)

/-! ## Calls that do not depend on front matter -/

/-- A call for the contents of a unit, whether that is a class or a module. -/
structure Content (unit : String) (call : Call) : Prop where
  changes : Changes unit call
  kindless : call.Kindless

theorem textCalls_content {unit : String} {method : Option MethodTitle} {lines : List (List Char)}
    {calls : List Call} (success : textCalls unit method lines = .ok calls) :
    ∀ call ∈ calls, Content unit call := by
  rcases textCalls_cases success with ⟨title, rfl, rfl⟩ | ⟨rfl, declares⟩
  · rintro call (_ | ⟨_, ⟨⟩⟩)
    exact ⟨⟨rfl, rfl⟩, trivial⟩
  · intro call made
    cases declares call made <;> exact ⟨⟨rfl, rfl⟩, trivial⟩

/-- A heading of level two or three says nothing of the kind of its unit. -/
theorem Moves.content {unit : String} {call : Call} (moves : Moves unit call) : Content unit call := by
  cases moves <;> exact ⟨⟨rfl, rfl⟩, trivial⟩

/-- Two sequences of calls that agree but for one unit, if any, and for the kinds that they open units
as. -/
structure Alike (first : Option String) (calls others : List Call) : Prop where
  opened : calls.filterMap Call.opened? = others.filterMap Call.opened?
  told : ∀ key, first ≠ some key → Draft.told key calls = Draft.told key others
  kindless : ∀ key, first ≠ some key → ∀ call ∈ Draft.told key calls, call.Kindless

private theorem Alike.append {first : Option String} {calls others more rest : List Call}
    (alike : Alike first calls others) (continues : Alike first more rest) :
    Alike first (calls ++ more) (others ++ rest) where
  opened := by simp only [List.filterMap_append, alike.opened, continues.opened]
  told key other := by
    rw [Draft.told_append, Draft.told_append, alike.told key other, continues.told key other]
  kindless key other call member := by
    rw [Draft.told_append] at member
    exact (List.mem_append.mp member).elim (alike.kindless key other call) (continues.kindless key other call)

/-- Calls that open the same units and else address the first unit only. -/
theorem alike_of_elsewhere {first : Option String} {calls others : List Call}
    (opened : calls.filterMap Call.opened? = others.filterMap Call.opened?)
    (apart : ∀ call ∈ calls, ∀ key, call.unit? = some key → first = some key)
    (aside : ∀ call ∈ others, ∀ key, call.unit? = some key → first = some key) :
    Alike first calls others where
  opened := opened
  told key other := by
    rw [Draft.told_of_elsewhere fun call member target => other (apart call member key target),
      Draft.told_of_elsewhere fun call member target => other (aside call member key target)]
  kindless key other call member := by
    rw [Draft.told_of_elsewhere fun call member target => other (apart call member key target)] at member
    cases member

private theorem alike_of_leveled {calls others : List Call}
    (same : calls.map Call.leveled = others.map Call.leveled) (kindless : ∀ call ∈ calls, call.Kindless)
    (first : Option String) : Alike first calls others where
  opened := by
    have opens (calls : List Call) :
        calls.filterMap Call.opened? = (calls.map Call.leveled).filterMap Call.opened? := by
      rw [List.filterMap_map]
      exact List.filterMap_congr fun call _ => (Call.opened?_leveled call).symm
    rw [opens calls, opens others, same]
  told key _ := by rw [Draft.told, Draft.told, same]
  kindless key _ call member := by
    obtain ⟨made, listed, rfl⟩ := List.mem_map.mp (List.mem_filter.mp member).1
    exact Call.kindless_leveled.mpr (kindless made listed)

private theorem alike_nil (first : Option String) : Alike first [] [] :=
  alike_of_leveled rfl (by simp) first

private theorem alike_self {calls : List Call} {unit : String} (content : ∀ call ∈ calls, Content unit call)
    (first : Option String) : Alike first calls calls :=
  alike_of_leveled rfl (fun call member => (content call member).kindless) first

private theorem alike_openingCalls (kind other : RubyUnit.Kind) (path : List String) (first : Option String) :
    Alike first (openingCalls kind path) (openingCalls other path) := by
  refine alike_of_leveled (by simp [openingCalls, Call.leveled]) (fun call member => ?_) first
  cases openingCalls_open kind path call member <;> trivial

private theorem opened_of_changes {unit : String} {calls : List Call}
    (changes : ∀ call ∈ calls, Changes unit call) :
    calls.filterMap Call.opened? = [] :=
  List.filterMap_eq_nil_iff.mpr fun call member => (changes call member).opens

private theorem alike_frontMatterCalls (metadata matter : Metadata) (kind other : RubyUnit.Kind) (unit : String) :
    Alike (some unit) (frontMatterCalls metadata kind unit) (frontMatterCalls matter other unit) := by
  have own (metadata : Metadata) (kind : RubyUnit.Kind) : ∀ call ∈ frontMatterCalls metadata kind unit,
      ∀ key, call.unit? = some key → some unit = some key := fun call member key target =>
    (frontMatterCalls_changes metadata kind unit call member).addressed.symm.trans target
  refine alike_of_elsewhere ?_ (own metadata kind) (own matter other)
  rw [opened_of_changes (frontMatterCalls_changes metadata kind unit),
    opened_of_changes (frontMatterCalls_changes matter other unit)]

theorem documentCalls_unopened (metadata : Metadata) :
    ∀ call ∈ documentCalls metadata, call.opened? = none :=
  fun call made => Draft.Call.opened?_of_document (documentCalls_unaddressed metadata call made)

private theorem alike_documentCalls (metadata matter : Metadata) (first : Option String) :
    Alike first (documentCalls metadata) (documentCalls matter) := by
  have opens (metadata : Metadata) : (documentCalls metadata).filterMap Call.opened? = [] :=
    List.filterMap_eq_nil_iff.mpr (documentCalls_unopened metadata)
  have apart (metadata : Metadata) : ∀ call ∈ documentCalls metadata, ∀ key, call.unit? = some key →
      first = some key := by
    intro call made key target
    rw [documentCalls_unaddressed metadata call made] at target
    cases target
  exact alike_of_elsewhere ((opens metadata).trans (opens matter).symm) (apart metadata) (apart matter)

/-! ## Two texts -/

private theorem unitCalls_alike {metadata matter : Metadata} {opened : Bool} {title : List Char}
    {calls others : List Call} {first : Option String}
    (success : unitCalls metadata opened title = .ok calls)
    (succeeds : unitCalls matter opened title = .ok others)
    (leads : opened = false → some (unitKey title) = first) : Alike first calls others := by
  obtain ⟨kind, _, _, _, rfl⟩ := unitCalls_eq_ok_iff.mp success
  obtain ⟨other, _, _, _, rfl⟩ := unitCalls_eq_ok_iff.mp succeeds
  refine (alike_openingCalls kind other _ first).append ?_
  cases opened with
  | true => exact alike_nil first
  | false =>
    rw [← leads rfl]
    exact alike_frontMatterCalls metadata matter kind other (unitKey title)

/-- Reading the same sections with other front matter makes like calls. -/
theorem sectionsCalls_alike {metadata matter : Metadata} {unit : Option String} {parts : List Section}
    {calls others : List Call} {first : Option String}
    (success : sectionsCalls metadata unit parts = .ok calls)
    (succeeds : sectionsCalls matter unit parts = .ok others)
    (leads : unit = none → (stretches parts).2.head?.map Stretch.unit = first) :
    Alike first calls others := by
  induction parts generalizing unit calls others with
  | nil =>
    cases success
    cases succeeds
    exact alike_nil first
  | cons part rest ih =>
    obtain ⟨opening, inside, method, content, later, opens, holds, follows, rfl⟩ :=
      sectionsCalls_cons_eq_ok_iff.mp success
    obtain ⟨header, within, title, text, after, begins, has, continues, rfl⟩ :=
      sectionsCalls_cons_eq_ok_iff.mp succeeds
    have header_alike : Alike first opening header ∧ inside = within ∧ method = title := by
      rcases headingCalls_cases opens with ⟨level, rfl, rfl, makes⟩ | ⟨level, rfl, moves⟩
      · obtain ⟨_, rfl, rfl, gives⟩ := (headingCalls_cases begins).resolve_right fun inner => inner.1 level
        refine ⟨unitCalls_alike makes gives fun unopened => ?_, rfl, rfl⟩
        rw [← leads (by simpa using unopened), stretches, if_pos level]
        rfl
      · have same : headingCalls metadata (some inside) part.heading =
            headingCalls matter (some inside) part.heading := by
          unfold headingCalls
          rw [if_neg level, if_neg level]
        rw [← same, opens] at begins
        cases begins
        exact ⟨alike_self (fun call made => (moves call made).content) first, rfl, rfl⟩
    obtain ⟨alike, rfl, rfl⟩ := header_alike
    rw [holds] at has
    cases has
    refine alike.append ((alike_self (textCalls_content holds) first).append ?_)
    exact ih follows continues fun absent => by cases absent

private theorem inferredName?_eq {filename : Option String} {front other : FrontMatter} {lines : List Line}
    {name twin : String} (inferred : inferredName? filename front lines = some name)
    (named : inferredName? filename other lines = some twin) : name = twin := by
  cases filename with
  | none => cases inferred
  | some file =>
    unfold inferredName? at inferred named
    dsimp only at inferred named
    split at inferred
    · split at named
      · exact Option.some.inj (inferred.symm.trans named)
      · cases named
    · cases inferred

variable {filename : Option String} {first second : String} {front other : FrontMatter}

private theorem textSections?_eq {parts rest : List Section} (body : front.body = other.body)
    (cut : textSections? filename front = some parts) (splits : textSections? filename other = some rest) :
    parts = rest := by
  unfold textSections? at cut splits
  rw [← body] at splits
  dsimp only at cut splits
  split at cut
  · next headed =>
    rw [if_pos headed] at splits
    exact Option.some.inj (cut.symm.trans splits)
  · next unheaded =>
    rw [if_neg unheaded] at splits
    obtain ⟨name, inferred, rfl⟩ := Option.map_eq_some_iff.mp cut
    obtain ⟨twin, named, rfl⟩ := Option.map_eq_some_iff.mp splits
    rw [inferredName?_eq inferred named]

/-- Texts with the same body have the same stretches, and their calls agree but for the unit of the first
stretch. -/
theorem callsOf_alike [DataFormat] {calls others : List Call}
    (begins : FrontMatter.split (Text.trim (Text.unixLines first.toList)) = .ok front)
    (starts : FrontMatter.split (Text.trim (Text.unixLines second.toList)) = .ok other)
    (body : front.body = other.body) (success : callsOf filename first = .ok calls)
    (succeeds : callsOf filename second = .ok others) :
    stretchesOf filename first = stretchesOf filename second ∧
      Alike ((stretchesOf filename first).head?.map Stretch.unit) calls others := by
  obtain ⟨matter, parts, rest, splits, cut, told, follows, rfl⟩ := callsOf_cases success
  obtain ⟨data, sections, later, divides, divided, said, continues, rfl⟩ := callsOf_cases succeeds
  cases begins.symm.trans splits
  cases starts.symm.trans divides
  obtain rfl := textSections?_eq body cut divided
  rw [told, said]
  refine ⟨rfl, (alike_documentCalls _ _ _).append ?_⟩
  exact sectionsCalls_alike follows continues fun _ => rfl

/-! ## Kinds -/

/-- The titles of a text leave the kind of a unit to the front matter: it has titles, and none of them names
a kind. -/
def LeftOpen (stretches : List Stretch) (unit : String) : Prop :=
  (∃ stretch ∈ stretches, stretch.unit = unit) ∧
    ∀ stretch ∈ stretches, stretch.unit = unit → kindInTitle? stretch.title = none

private theorem kindsOf_unitCalls {metadata : Metadata} {opened : Bool} {title : List Char} {calls : List Call}
    (success : unitCalls metadata opened title = .ok calls) (key : String) :
    (kindsOf key calls).map Except.ok = if unitKey title = key then [unitKind metadata title] else [] := by
  obtain ⟨kind, known, _, _, rfl⟩ := unitCalls_eq_ok_iff.mp success
  have front : kindsOf key (if opened then [] else frontMatterCalls metadata kind (unitKey title)) = [] := by
    refine Draft.kindsOf_of_unopened fun call made => ?_
    split at made
    · cases made
    · exact (frontMatterCalls_changes metadata kind _ call made).opens
  have holders (above scope : List String) : kindsOf key (holderCalls above scope) = [] := by
    refine List.filterMap_eq_nil_iff.mpr fun call listed => ?_
    obtain ⟨_, _, _, _, rfl⟩ := exists_of_mem_holderCalls (List.mem_filter.mp listed).1
    rfl
  rw [Draft.kindsOf_append, front, List.append_nil, openingCalls, Draft.kindsOf_append, holders, known]
  simp only [Draft.kindsOf_cons, Call.unit?, keyOf_unitPath, Option.some.injEq, Call.kind?]
  split <;> simp [kindsOf]

theorem kindsOf_sectionsCalls {metadata : Metadata} {unit : Option String} {parts : List Section}
    {calls : List Call} (success : sectionsCalls metadata unit parts = .ok calls) (key : String) :
    (kindsOf key calls).map Except.ok = ((stretches parts).2.filter (·.unit == key)).map
      fun stretch => unitKind metadata stretch.title := by
  induction parts generalizing unit calls with
  | nil =>
    cases success
    rfl
  | cons part rest ih =>
    obtain ⟨opening, inside, method, content, later, opens, holds, follows, rfl⟩ :=
      sectionsCalls_cons_eq_ok_iff.mp success
    have silent : kindsOf key content = [] :=
      Draft.kindsOf_of_unopened fun call made => (textCalls_content holds call made).changes.opens
    rw [Draft.kindsOf_append, Draft.kindsOf_append, silent, List.nil_append, List.map_append, ih follows,
      stretches]
    rcases headingCalls_cases opens with ⟨level, _, _, makes⟩ | ⟨level, _, moves⟩
    · rw [if_pos level, kindsOf_unitCalls makes key, List.filter_cons]
      by_cases same : unitKey part.heading.title = key
      · simp [Stretch.unit, same]
      · simp [Stretch.unit, same]
    · rw [if_neg level, Draft.kindsOf_of_unopened fun call made => (moves call made).content.changes.opens]
      rfl

/-- A unit is opened as the kinds that its titles name, and as the declared kind where they name none. -/
theorem callsOf_kinds [DataFormat] {calls : List Call}
    (begins : FrontMatter.split (Text.trim (Text.unixLines first.toList)) = .ok front)
    (success : callsOf filename first = .ok calls) (key : String) :
    (kindsOf key calls).map Except.ok = ((stretchesOf filename first).filter (·.unit == key)).map
      fun stretch => unitKind front.metadata stretch.title := by
  obtain ⟨matter, parts, rest, splits, _, told, follows, rfl⟩ := callsOf_cases success
  cases begins.symm.trans splits
  rw [Draft.kindsOf_append, Draft.kindsOf_of_unopened (documentCalls_unopened _), told, List.nil_append]
  exact kindsOf_sectionsCalls follows key

/-! ## Two documents -/

/-- A unit is of the kind that each of its titles names or leaves to the front matter. -/
theorem unitKind_of_kinded {stretches : List Stretch} {kinds : List RubyUnit.Kind} {key : String}
    {metadata : Metadata} {unit : UnitDraft} (kinded : unit.Kinded kinds)
    (titled : kinds.map Except.ok = (stretches.filter (·.unit == key)).map
      fun stretch => unitKind metadata stretch.title)
    {stretch : Stretch} (member : stretch ∈ stretches) (named : stretch.unit = key) :
    unitKind metadata stretch.title = .ok unit.kind := by
  have listed : unitKind metadata stretch.title ∈ kinds.map Except.ok := by
    rw [titled]
    exact List.mem_map.mpr ⟨stretch, by simp [member, named], rfl⟩
  obtain ⟨kind, inside, same⟩ := List.mem_map.mp listed
  rw [← same, kinded.agree kind inside]

private theorem unitKind_of_title {title : List Char} {kind : RubyUnit.Kind} {rest : List Char}
    (heads : kindInTitle? title = some (kind, rest)) (metadata : Metadata) :
    unitKind metadata title = .ok kind := by
  rw [unitKind, heads]

theorem unitKind_of_untitled {title : List Char} (heads : kindInTitle? title = none) (metadata : Metadata) :
    unitKind metadata title = declaredKind metadata := by
  rw [unitKind, heads]

/-- Two units that are opened by the same titles are of the same kind exactly if the titles say it or the
front matter declares the same. -/
theorem kind_eq_iff {stretches : List Stretch} {kinds others : List RubyUnit.Kind} {key : String}
    {metadata matter : Metadata} {unit twin : UnitDraft} (kinded : unit.Kinded kinds)
    (alike : twin.Kinded others)
    (titled : kinds.map Except.ok = (stretches.filter (·.unit == key)).map
      fun stretch => unitKind metadata stretch.title)
    (named : others.map Except.ok = (stretches.filter (·.unit == key)).map
      fun stretch => unitKind matter stretch.title) :
    twin.kind = unit.kind ↔ (LeftOpen stretches key → declaredKind metadata = declaredKind matter) := by
  constructor
  · rintro same ⟨⟨stretch, member, opens⟩, untitled⟩
    have first := unitKind_of_kinded kinded titled member opens
    have second := unitKind_of_kinded alike named member opens
    rw [unitKind_of_untitled (untitled stretch member opens)] at first second
    rw [first, second, same]
  · intro declared
    by_cases opened : ∃ stretch ∈ stretches, stretch.unit = key
    · have said : ∃ stretch ∈ stretches, stretch.unit = key ∧
          unitKind metadata stretch.title = unitKind matter stretch.title := by
        by_cases untitled : ∀ stretch ∈ stretches, stretch.unit = key → kindInTitle? stretch.title = none
        · obtain ⟨stretch, member, opens⟩ := opened
          refine ⟨stretch, member, opens, ?_⟩
          rw [unitKind_of_untitled (untitled stretch member opens),
            unitKind_of_untitled (untitled stretch member opens)]
          exact declared ⟨⟨stretch, member, opens⟩, untitled⟩
        · push Not at untitled
          obtain ⟨stretch, member, opens, heads⟩ := untitled
          obtain ⟨⟨kind, rest⟩, heads⟩ := Option.ne_none_iff_exists'.mp heads
          exact ⟨stretch, member, opens,
            (unitKind_of_title heads metadata).trans (unitKind_of_title heads matter).symm⟩
      obtain ⟨stretch, member, opens, same⟩ := said
      have first := unitKind_of_kinded kinded titled member opens
      have second := unitKind_of_kinded alike named member opens
      exact Except.ok.inj (second.symm.trans (same.symm.trans first))
    · -- without a title the unit only holds others
      have empty : stretches.filter (·.unit == key) = [] := by
        simpa [List.filter_eq_nil_iff] using fun stretch member same => opened ⟨stretch, member, same⟩
      rw [empty, List.map_nil, List.map_eq_nil_iff] at titled named
      rw [alike.mere named, kinded.mere titled]

/-- What becomes of a unit by calls that agree but for the unit opened first. -/
theorem Alike.leveled_eq {lead : Option String} {key : String} {calls others : List Call}
    {unit twin : UnitDraft} (alike : Alike lead calls others) (apart : lead ≠ some key)
    (run : Draft.slotRun? key none calls = some (some unit))
    (repeated : Draft.slotRun? key none others = some (some twin)) : twin.leveled = unit.leveled := by
  have first := Draft.slotRun?_told (alike.kindless key apart) run
  have second := Draft.slotRun?_told (alike.told key apart ▸ alike.kindless key apart) repeated
  rw [← alike.told key apart, first] at second
  exact (Option.some.inj (Option.some.inj second)).symm

private theorem eq_of_leveled {unit twin : UnitDraft} (leveled : twin.leveled = unit.leveled)
    (kind : twin.kind = unit.kind) : twin = unit := by
  obtain ⟨⟩ := unit
  obtain ⟨⟩ := twin
  cases kind
  cases leveled
  rfl

/-- Units that are the same but for their kinds freeze to units that are the same but for their
natures. -/
theorem frozen_of_leveled {unit twin : UnitDraft} (leveled : twin.leveled = unit.leveled) :
    twin.frozen = { unit.frozen with nature := twin.frozen.nature } := by
  obtain ⟨nature, same⟩ := unit.frozen_eq
  obtain ⟨other, also⟩ := twin.frozen_eq
  rw [same, also]
  obtain ⟨⟩ := unit
  obtain ⟨⟩ := twin
  cases leveled
  rfl

/-- Texts with the same body give units of the same names in the same order. A unit that is not opened first
is the same in both, its nature apart; and it is the same altogether exactly if a title of it says its kind,
it only holds others, or both texts declare the same kind. -/
theorem read_of_same_body [DataFormat] {document reread : Document}
    (begins : FrontMatter.split (Text.trim (Text.unixLines first.toList)) = .ok front)
    (starts : FrontMatter.split (Text.trim (Text.unixLines second.toList)) = .ok other)
    (body : front.body = other.body) (success : (read filename first).result = .ok document)
    (succeeds : (read filename second).result = .ok reread) :
    document.units.map (·.qualifiedName) = reread.units.map (·.qualifiedName) ∧
      ∀ unit ∈ document.units, ∀ twin ∈ reread.units, twin.qualifiedName = unit.qualifiedName →
        (stretchesOf filename first).head?.map Stretch.unit ≠ some unit.qualifiedName →
        twin = { unit with nature := twin.nature } ∧
          (twin = unit ↔ (LeftOpen (stretchesOf filename first) unit.qualifiedName →
            declaredKind front.metadata = declaredKind other.metadata)) := by
  obtain ⟨calls, draft, made, run, holds, rfl⟩ := read_eq_ok_iff.mp success
  obtain ⟨others, next, gives, again, keeps, rfl⟩ := read_eq_ok_iff.mp succeeds
  obtain ⟨told, alike⟩ := callsOf_alike begins starts body made gives
  constructor
  · rw [holds.sound.names_eq, keeps.sound.names_eq, holds.opened, keeps.opened, alike.opened]
  · rintro _ member _ within named apart
    obtain ⟨⟨key, unit⟩, present, rfl⟩ := List.mem_map.mp member
    obtain ⟨⟨asked, twin⟩, present', rfl⟩ := List.mem_map.mp within
    have found := Entries.get?_of_mem holds.sound.distinct present
    have finds := Entries.get?_of_mem keeps.sound.distinct present'
    have keyed : unit.frozen.qualifiedName = key :=
      (unit.frozen_qualifiedName).trans (holds.sound.units key unit found).keyed
    have twinned : twin.frozen.qualifiedName = asked :=
      (twin.frozen_qualifiedName).trans (keeps.sound.units asked twin finds).keyed
    dsimp only at named apart ⊢
    rw [keyed] at named apart ⊢
    obtain rfl : asked = key := twinned.symm.trans named
    have slot : Draft.slotRun? asked none calls = some (some unit) := (run.get? asked).trans (congrArg some found)
    have slot' : Draft.slotRun? asked none others = some (some twin) :=
      (again.get? asked).trans (congrArg some finds)
    have leveled := alike.leveled_eq apart slot slot'
    have kinded := @Draft.slotRun?_kinded asked calls [] none unit (by simp) (fun _ => rfl) slot
    have kinded' := @Draft.slotRun?_kinded asked others [] none twin (by simp) (fun _ => rfl) slot'
    refine ⟨frozen_of_leveled leveled, ?_⟩
    rw [← kind_eq_iff kinded kinded' (callsOf_kinds begins made asked)
      (told ▸ callsOf_kinds starts gives asked)]
    constructor
    · intro same
      rw [← kind_frozen twin, same, kind_frozen]
    · intro kind
      rw [eq_of_leveled leveled kind]

/-- Front matter that declares a module makes one of every unit whose title names no kind. -/
def declaredText : String := "---\ntype: module\n---\n# A\n# B\n# class C"

def undeclaredText : String := "# A\n# B\n# class C"

/-- The second unit changes its kind with the front matter of the first; the third, whose title says its
kind, does not. -/
theorem read_of_same_body_of_declared :
    ∃ front other document reread,
      FrontMatter.split (Text.trim (Text.unixLines declaredText.toList)) = .ok front ∧
      FrontMatter.split (Text.trim (Text.unixLines undeclaredText.toList)) = .ok other ∧
      front.body = other.body ∧ (read none declaredText).result = .ok document ∧
      (read none undeclaredText).result = .ok reread ∧
      document.units.map (·.kind) = [.mod, .mod, .cls] ∧ reread.units.map (·.kind) = [.cls, .cls, .cls] ∧
      document.units.map (·.qualifiedName) = reread.units.map (·.qualifiedName) ∧
      ∀ unit ∈ document.units, ∀ twin ∈ reread.units, twin.qualifiedName = unit.qualifiedName →
        (stretchesOf none declaredText).head?.map Stretch.unit ≠ some unit.qualifiedName →
        twin = { unit with nature := twin.nature } ∧
          (twin = unit ↔ (LeftOpen (stretchesOf none declaredText) unit.qualifiedName →
            declaredKind front.metadata = declaredKind other.metadata)) := by
  have cuts : (FrontMatter.split (Text.trim (Text.unixLines declaredText.toList))).toOption.map
      FrontMatter.body = some undeclaredText.toList := by decide +kernel
  have bare : (FrontMatter.split (Text.trim (Text.unixLines undeclaredText.toList))).toOption.map
      FrontMatter.body = some undeclaredText.toList := by decide +kernel
  have declares : (read none declaredText).result.toOption.map (fun document => document.units.map (·.kind)) =
      some [.mod, .mod, .cls] := by decide +kernel
  have omits : (read none undeclaredText).result.toOption.map (fun document => document.units.map (·.kind)) =
      some [.cls, .cls, .cls] := by decide +kernel
  obtain ⟨front, begins, body⟩ := Except.exists_of_toOption cuts
  obtain ⟨other, starts, same⟩ := Except.exists_of_toOption bare
  obtain ⟨document, success, kinds⟩ := Except.exists_of_toOption declares
  obtain ⟨reread, succeeds, others⟩ := Except.exists_of_toOption omits
  exact ⟨front, other, document, reread, begins, starts, body.trans same.symm, success, succeeds, kinds, others,
    read_of_same_body begins starts (body.trans same.symm) success succeeds⟩

end LiterateRuby.Literate
