import LiterateRuby.Proofs.Draft.Consistent
import LiterateRuby.Proofs.Literate.FirstUnit
import LiterateRuby.Proofs.Literate.Units

/-! # Sections that can be read

Front matter as it is written for a unit never keeps the sections after it from being read. Whether they
can be read is decided section by section (`Section.Legible`), but for one thing: titles that name the same
unit must name the same kind. `Describes.consistent_sectionsCalls_iff` says that nothing
else can go wrong.
-/

namespace LiterateRuby.Literate

open Draft (Call Consistent OpenedFirst kindsOf aliasesOf aliasMethodsOf)
open FrontMatter (entriesIn)

/-- A declaration that can be made: no attribute name is empty, and no number has too many digits. -/
def Declaration.Legible : Declaration → Prop
  | .attributes _ names => "" ∉ names
  | .constant _ value | .classVariable _ value => (readValue value).isOk = true
  | .nothing => True

/-- Lines whose declarations can all be made. -/
def LegibleLines (lines : List (List Char)) : Prop :=
  ∀ line ∈ Text.lines (Text.trim (Text.unlines lines)), (readDeclaration (Text.trim line)).Legible

/-- A section that can be read: its title names a unit or a method, where it should, and its declarations
can be made. -/
structure Section.Legible (part : Section) : Prop where
  unit : part.heading.level = 1 → "" ∉ unitPath part.heading.title
  method : part.heading.isMethod = true →
    ∃ method, readTitle part.heading.title = .ok method ∧ (entryOf method part.text).Flawless
  declarations : part.heading.isMethod = false → LegibleLines part.text

/-- The kind of unit that a title names; a title without a word for it names a class. -/
def titleKind (title : List Char) : RubyUnit.Kind := ((kindInTitle? title).map (·.1)).getD .cls

/-- Sections that can all be read, and whose titles agree on the kind of each unit. -/
structure Legible (parts : List Section) : Prop where
  each : ∀ part ∈ parts, part.Legible
  agree : ∀ first ∈ (stretches parts).2, ∀ second ∈ (stretches parts).2,
    first.unit = second.unit → titleKind first.title = titleKind second.title

/-! ## Calls without flaws -/

/-- Calls that are made, and none of them flawed. -/
def Readable (made : Except ReadFault (List Call)) : Prop :=
  ∃ calls, made = .ok calls ∧ ∀ call ∈ calls, call.Flawless

/-- A declaration of a constant or class variable names it as the notation can. -/
def Declaration.Named : Declaration → Prop
  | .constant name _ => ConstantName name
  | .classVariable name _ => ClassVariableName name
  | _ => True

private theorem named_of_constant? {line : List Char} {declaration : Declaration}
    (found : constant? line = some declaration) : declaration.Named := by
  unfold constant? at found
  dsimp only at found
  split at found
  · next capital =>
    obtain ⟨value, _, rfl⟩ := Option.map_eq_some_iff.mp found
    rw [Declaration.Named, ConstantName, String.toList_ofList]
    refine ⟨?_, List.all_eq_true.mp List.all_takeWhile⟩
    cases name : line.takeWhile isConstantChar with
    | nil => simp [name] at capital
    | cons c rest => exact ⟨c, rest, rfl, by simpa [name] using capital⟩
  · cases found

private theorem named_of_classVariable? {line : List Char} {declaration : Declaration}
    (found : classVariable? line = some declaration) : declaration.Named := by
  unfold classVariable? at found
  split at found
  · next rest _ =>
    dsimp only at found
    split at found
    · cases found
    · next given =>
      obtain ⟨value, _, rfl⟩ := Option.map_eq_some_iff.mp found
      have word : WordText (String.ofList (rest.takeWhile Text.isWord)) := by
        intro c member
        rw [String.toList_ofList] at member
        exact List.all_eq_true.mp List.all_takeWhile c member
      refine ⟨String.ofList (rest.takeWhile Text.isWord), ?_, by simpa using given, word⟩
      rw [← String.toList_inj]
      simp
  · cases found

private theorem ConstantName.ne_empty {name : String} (named : ConstantName name) : name ≠ "" := by
  rintro rfl
  obtain ⟨⟨c, rest, starts, -⟩, -⟩ := named
  cases starts

private theorem ClassVariableName.bareVariable_ne_nil {name : String} (named : ClassVariableName name) :
    Draft.bareVariable name ≠ [] := by
  obtain ⟨bare, rfl, given, word⟩ := named
  rw [bareVariable_of_named given word]
  exact toList_ne_nil given

theorem readDeclaration_named (line : List Char) : (readDeclaration line).Named := by
  unfold readDeclaration
  cases attributes : attributes? line with
  | some declaration =>
    obtain ⟨accessor, _, found⟩ := List.exists_of_findSome?_eq_some attributes
    split at found
    · split at found <;> cases found
      trivial
    · cases found
  | none =>
    cases constant : constant? line with
    | some declaration => exact named_of_constant? constant
    | none =>
      cases classVariable : classVariable? line with
      | some declaration => exact named_of_classVariable? classVariable
      | none => trivial

private theorem readable_declarationCalls_iff {unit : String} {line : List Char} :
    Readable (declarationCalls unit line) ↔ (readDeclaration (Text.trim line)).Legible := by
  have named := readDeclaration_named (Text.trim line)
  unfold declarationCalls
  cases read : readDeclaration (Text.trim line) with
  | attributes accessor names =>
    dsimp only
    split
    · next empty => simp [Readable, Declaration.Legible, List.isEmpty_iff.mp empty]
    · next given =>
      have given : names ≠ [] := by simpa using given
      simp [Readable, Declaration.Legible, Call.Flawless, given]
  | constant name value =>
    rw [read] at named
    have named : name ≠ "" := ConstantName.ne_empty named
    cases known : readValue value <;>
      simp [Readable, Declaration.Legible, known, Except.mapError, Except.isOk, Except.toBool, pure,
        Except.pure, Call.Flawless, named]
  | classVariable name value =>
    rw [read] at named
    have named : Draft.bareVariable name ≠ [] := ClassVariableName.bareVariable_ne_nil named
    cases known : readValue value <;>
      simp [Readable, Declaration.Legible, known, Except.mapError, Except.isOk, Except.toBool, pure,
        Except.pure, Call.Flawless, named]
  | nothing => simp [Readable, Declaration.Legible]

/-- Parts are readable together if each one is. -/
theorem readable_mapM_iff {α : Type} {make : α → Except ReadFault (List Call)} {items : List α} :
    Readable (do return (← items.mapM make).flatten) ↔ ∀ item ∈ items, Readable (make item) := by
  induction items with
  | nil => simp [Readable, pure, Except.pure]
  | cons item rest ih =>
    rw [List.forall_mem_cons, ← ih, List.mapM_cons]
    constructor
    · rintro ⟨calls, success, flawless⟩
      obtain ⟨parts, success, same⟩ := Except.bind_eq_ok_iff.mp success
      obtain ⟨first, made, success⟩ := Except.bind_eq_ok_iff.mp success
      obtain ⟨others, more, joined⟩ := Except.bind_eq_ok_iff.mp success
      cases joined
      cases same
      rw [List.flatten_cons, List.forall_mem_append] at flawless
      exact ⟨⟨first, made, flawless.1⟩, others.flatten, by rw [more]; rfl, flawless.2⟩
    · rintro ⟨⟨first, made, sound⟩, calls, success, flawless⟩
      obtain ⟨others, more, same⟩ := Except.bind_eq_ok_iff.mp success
      cases same
      refine ⟨first ++ others.flatten, by rw [made, more]; rfl, ?_⟩
      exact List.forall_mem_append.mpr ⟨sound, flawless⟩

/-- The text under a heading that opens no method is readable if its lines are legible. -/
theorem readable_textCalls_iff {unit : String} {lines : List (List Char)} :
    Readable (textCalls unit none lines) ↔ LegibleLines lines := by
  rw [textCalls_none, readable_mapM_iff]
  exact forall₂_congr fun line _ => readable_declarationCalls_iff

/-! ## Front matter for a unit -/

/-- Calls that open a unit with a whole path are flawless. -/
theorem openingCalls_flawless {title : List Char} (whole : "" ∉ unitPath title) (kind : RubyUnit.Kind) :
    ∀ call ∈ openingCalls kind (unitPath title), call.Flawless := by
  intro call made
  cases openingCalls_open kind _ call made with
  | unit =>
    intro unnamed
    rw [List.getLast?_eq_some_getLast (unitPath_ne_nil title), Option.getD_some] at unnamed
    exact whole (unnamed ▸ List.getLast_mem _)
  | _ => trivial

variable {metadata : Metadata} {described : RubyUnit} (describes : Describes metadata described)
include describes

/-- What front matter says for a unit is flawless, for it names no constants. -/
theorem Describes.flawless (kind : RubyUnit.Kind) (key : String) :
    ∀ call ∈ frontMatterCalls metadata kind key, call.Flawless := by
  have constants : metadata.get? "constants" = none := describes.undeclared _ (by simp)
  have classVariables : metadata.get? "class_variables" = none := describes.undeclared _ (by simp)
  intro call made
  cases frontMatterCalls_introduce metadata kind key call made with
  | constant listed => rw [constants] at listed; cases listed
  | classVariable listed => rw [classVariables] at listed; cases listed
  | _ => trivial

/-- Without a declared kind, a title without a kind names a class. -/
theorem Describes.unitKind_eq (title : List Char) : unitKind metadata title = .ok (titleKind title) := by
  unfold unitKind titleKind
  cases kindInTitle? title with
  | some head => rfl
  | none => simp [declaredKind, describes.untyped]

omit describes in
/-- The heading of a method opens the method that its title says. -/
theorem exists_headsWithin_of_isMethod (key : String) {heading : Heading} {title : MethodTitle}
    (titled : heading.isMethod = true) (read : readTitle heading.title = .ok title) :
    ∃ moves, HeadsWithin key heading moves (some title) := by
  have ⟨silent, outside⟩ := Heading.silent_of_isMethod titled
  simp only [Heading.isMethod, Bool.or_eq_true, Bool.and_eq_true, beq_iff_eq] at titled
  rcases titled with third | ⟨second, _⟩
  · exact ⟨[], .subsection third read⟩
  · rw [Heading.sets?, if_pos second, Option.or_eq_none_iff] at silent
    have other : heading.title ≠ singletonTitle := by simpa [Heading.opensBlock, second] using outside
    exact ⟨[.exitSingleton key], .leaving (by omega) silent.1 other read⟩

omit describes in
/-- Any other heading inside of a unit opens no method. -/
theorem exists_headsWithin_of_not_isMethod (key : String) {heading : Heading}
    (level : heading.level = 2 ∨ heading.level = 3) (untitled : heading.isMethod = false) :
    ∃ moves, HeadsWithin key heading moves none := by
  have second : heading.level = 2 := by
    refine level.resolve_right fun third => ?_
    simp [Heading.isMethod, third] at untitled
  cases named : Visibility.ofText? (String.ofList heading.title) with
  | some visibility => exact ⟨_, .visibility (by omega) named⟩
  | none =>
    have same : heading.title = singletonTitle := by
      by_contra other
      simp [Heading.isMethod, Heading.sets?, second, named, other] at untitled
    exact ⟨_, .block (by omega) same⟩

omit describes in
private theorem Moves.flawless {key : String} {call : Call} (moves : Moves key call) : call.Flawless := by
  cases moves <;> trivial

/-- A section whose calls are made, and none of them flawed, while a unit may be open. -/
def ReadablePart (metadata : Metadata) (unit : Option String) (part : Section) : Prop :=
  ∃ opening inside method, headingCalls metadata unit part.heading = .ok (opening, inside, method) ∧
    (∀ call ∈ opening, call.Flawless) ∧ Readable (textCalls inside method part.text)

private theorem Describes.readablePart_iff_of_unit (unit : Option String) {part : Section}
    (first : part.heading.level = 1) : ReadablePart metadata unit part ↔ part.Legible := by
  have plain : part.heading.isMethod = false := by simp [Heading.isMethod, first]
  have heads : headingCalls metadata unit part.heading =
      (do return (← unitCalls metadata unit.isSome part.heading.title, unitKey part.heading.title, none)) := by
    unfold headingCalls
    rw [if_pos first]
  have opens : unitCalls metadata unit.isSome part.heading.title =
      if (unitPath part.heading.title).contains "" then
        .error (.badUnitHeading
          (String.ofList (((kindInTitle? part.heading.title).map (·.2)).getD part.heading.title)))
      else .ok (openingCalls (titleKind part.heading.title) (unitPath part.heading.title) ++
        if unit.isSome then []
        else frontMatterCalls metadata (titleKind part.heading.title) (unitKey part.heading.title)) := by
    have worded : Worded (if unit.isSome then [] else frontMatterData metadata (titleKind part.heading.title)) := by
      split
      · simp
      · exact describes.expressible.worded_frontMatterData _
    rw [unitCalls, describes.unitKind_eq, Except.ok_bind, wordedCalls_eq_ok_iff.mpr ⟨worded, rfl⟩]
  unfold ReadablePart
  rw [heads, opens]
  constructor
  · rintro ⟨opening, inside, method, success, _, readable⟩
    split at success
    · cases success
    · next whole =>
      cases success
      refine ⟨fun _ => by simpa using whole, ?_, fun _ => readable_textCalls_iff.mp readable⟩
      intro titled
      rw [plain] at titled
      cases titled
  · intro legible
    have whole := legible.unit first
    rw [if_neg (by simpa using whole)]
    refine ⟨_, _, _, rfl, ?_, readable_textCalls_iff.mpr (legible.declarations plain)⟩
    intro call made
    rcases List.mem_append.mp made with opening | front
    · exact openingCalls_flawless whole _ call opening
    · split at front
      · cases front
      · exact describes.flawless _ _ call front

omit describes in
private theorem readablePart_iff_of_inner (key : String) {part : Section}
    (level : part.heading.level = 2 ∨ part.heading.level = 3) :
    ReadablePart metadata (some key) part ↔ part.Legible := by
  have inner : part.heading.level ≠ 1 := by omega
  constructor
  · rintro ⟨opening, inside, method, success, _, readable⟩
    obtain ⟨rfl, within⟩ := (headingCalls_within_iff inner).mp success
    have titled := within.isMethod level
    cases method with
    | none =>
      exact ⟨fun one => absurd one inner, fun own => by simp [own] at titled,
        fun _ => readable_textCalls_iff.mp readable⟩
    | some title =>
      obtain ⟨calls, made, flawless⟩ := readable
      cases made
      exact ⟨fun one => absurd one inner, fun _ => ⟨title, within.reads, flawless _ List.mem_cons_self⟩,
        fun other => by simp [other] at titled⟩
  · intro legible
    cases titled : part.heading.isMethod with
    | true =>
      obtain ⟨title, read, flawless⟩ := legible.method titled
      obtain ⟨moves, within⟩ := exists_headsWithin_of_isMethod key titled read
      exact ⟨moves, key, some title, (headingCalls_within_iff inner).mpr ⟨rfl, within⟩,
        fun call made => (within.moves call made).flawless, _, rfl, by simpa [Call.Flawless] using flawless⟩
    | false =>
      obtain ⟨moves, within⟩ := exists_headsWithin_of_not_isMethod key level titled
      exact ⟨moves, key, none, (headingCalls_within_iff inner).mpr ⟨rfl, within⟩,
        fun call made => (within.moves call made).flawless,
        readable_textCalls_iff.mpr (legible.declarations titled)⟩

/-- Whether a section can be read does not depend on the unit that is open before it. -/
theorem Describes.readablePart_iff {unit : Option String} {part : Section}
    (level : part.heading.level = 1 ∨ part.heading.level = 2 ∨ part.heading.level = 3)
    (opened : unit = none → part.heading.level = 1) : ReadablePart metadata unit part ↔ part.Legible := by
  by_cases first : part.heading.level = 1
  · exact describes.readablePart_iff_of_unit unit first
  · obtain ⟨key, rfl⟩ := Option.ne_none_iff_exists'.mp (mt opened first)
    exact readablePart_iff_of_inner key (level.resolve_left first)

/-- Sections can be read if each of them can. -/
theorem Describes.readable_sectionsCalls_iff {unit : Option String} {parts : List Section}
    (levels : ∀ part ∈ parts, part.heading.level = 1 ∨ part.heading.level = 2 ∨ part.heading.level = 3)
    (opened : unit = none → ∀ part, parts.head? = some part → part.heading.level = 1) :
    Readable (sectionsCalls metadata unit parts) ↔ ∀ part ∈ parts, part.Legible := by
  induction parts generalizing unit with
  | nil => simp [Readable, sectionsCalls]
  | cons part rest ih =>
    have later (inside : String) := @ih (some inside)
      (fun other member => levels other (List.mem_cons_of_mem _ member)) (by simp)
    rw [List.forall_mem_cons, ← describes.readablePart_iff (levels part List.mem_cons_self)
      fun unopened => opened unopened part rfl]
    constructor
    · rintro ⟨calls, success, flawless⟩
      obtain ⟨opening, inside, method, content, further, opens, holds, follows, rfl⟩ :=
        sectionsCalls_cons_eq_ok_iff.mp success
      simp only [List.forall_mem_append] at flawless
      obtain ⟨sound, within, after⟩ := flawless
      exact ⟨⟨opening, inside, method, opens, sound, content, holds, within⟩,
        (later inside).mp ⟨further, follows, after⟩⟩
    · rintro ⟨⟨opening, inside, method, opens, sound, content, holds, within⟩, each⟩
      obtain ⟨further, follows, after⟩ := (later inside).mpr each
      refine ⟨opening ++ (content ++ further), sectionsCalls_cons_eq_ok_iff.mpr
        ⟨opening, inside, method, content, further, opens, holds, follows, rfl⟩, ?_⟩
      simp only [List.forall_mem_append]
      exact ⟨sound, within, after⟩

/-! ## All sections -/

omit describes in
/-- A unit heading opens all units that it addresses. -/
theorem unitCalls_openedFirst {opened : Bool} {title : List Char} {calls : List Call}
    (success : unitCalls metadata opened title = .ok calls) (key : String) : OpenedFirst key calls := by
  obtain ⟨kind, _, _, _, rfl⟩ := unitCalls_eq_ok_iff.mp success
  have address : (Call.addUnit ((unitPath title).getLast?.getD "") kind (unitPath title).dropLast).unit? =
      some (unitKey title) := congrArg some (keyOf_unitPath title)
  rw [openingCalls, List.append_assoc]
  refine Draft.openedFirst_append ?_ fun _ => ?_
  · intro call found
    obtain ⟨_, _, _, _, rfl⟩ := exists_of_mem_holderCalls (List.mem_of_find?_eq_some found)
    rfl
  · by_cases here : unitKey title = key
    · intro call found
      rw [List.cons_append, List.find?_cons_of_pos (by simp [address, here])] at found
      cases found
      rfl
    · refine Draft.openedFirst_of_unaddressed fun call made => ?_
      rw [List.cons_append, List.cons_append, List.cons_append, List.nil_append] at made
      have other : some (unitKey title) ≠ some key := by simpa using here
      simp only [List.mem_cons] at made
      rcases made with rfl | rfl | rfl | front
      · rwa [address]
      · exact other
      · exact other
      · split at front
        · cases front
        · rwa [(frontMatterCalls_changes metadata kind _ call front).addressed]

omit describes in
/-- Sections open every unit that they address, but for the one that is open before them. -/
theorem sectionsCalls_openedFirst {unit : Option String} {parts : List Section} {calls : List Call}
    (success : sectionsCalls metadata unit parts = .ok calls) {key : String} (other : unit ≠ some key) :
    OpenedFirst key calls := by
  induction parts generalizing unit calls with
  | nil =>
    cases success
    exact Draft.openedFirst_of_unaddressed (by simp)
  | cons part rest ih =>
    obtain ⟨opening, inside, method, content, later, opens, holds, follows, rfl⟩ :=
      sectionsCalls_cons_eq_ok_iff.mp success
    have target (elsewhere : inside ≠ key) : OpenedFirst key (content ++ later) := by
      refine Draft.openedFirst_append ?_ fun _ => ih follows (by simpa using elsewhere)
      refine Draft.openedFirst_of_unaddressed fun call made => ?_
      rw [textCalls_unit holds call made]
      simpa using elsewhere
    rcases headingCalls_cases opens with ⟨_, rfl, _, makes⟩ | ⟨_, rfl, moves⟩
    · refine Draft.openedFirst_append (unitCalls_openedFirst makes key) fun unaddressed => target ?_
      rintro rfl
      obtain ⟨call, member, address⟩ := unitCalls_opens makes
      exact absurd (by simpa using address) (List.find?_eq_none.mp unaddressed call member)
    · have elsewhere : inside ≠ key := by simpa using other
      refine Draft.openedFirst_append ?_ fun _ => target elsewhere
      refine Draft.openedFirst_of_unaddressed fun call made => ?_
      rwa [(moves call made).unit?_eq]

/-- Front matter gives no aliases but those of the unit that it describes. -/
theorem Describes.aliases_of_introduces {key : String} {call : Call} (introduces : Introduces metadata key call) :
    (∀ name, call.alias? = some name → name ∈ described.aliases.keys) ∧
      ∀ name, call.aliasMethod? = some name → name ∈ described.aliasMethods.keys := by
  cases introduces with
  | @aliased new old listed =>
    have member : (new.text, old.text) ∈ described.aliases := describes.aliases ▸ List.mem_map_of_mem listed
    have named : new.text ∈ described.aliases.keys := List.mem_map_of_mem member
    simpa [Call.alias?, Call.aliasMethod?] using named
  | @aliasedMethod new old listed =>
    have member : (new.text, old.text) ∈ described.aliasMethods :=
      describes.aliasMethods ▸ List.mem_map_of_mem listed
    have named : new.text ∈ described.aliasMethods.keys := List.mem_map_of_mem member
    simpa [Call.alias?, Call.aliasMethod?] using named
  | _ => simp [Call.alias?, Call.aliasMethod?]

/-- Only front matter gives aliases, and none but those of the unit that it describes. -/
theorem Describes.aliases_mem {unit : Option String} {parts : List Section} {calls : List Call}
    (success : sectionsCalls metadata unit parts = .ok calls) :
    ∀ call ∈ calls, (∀ name, call.alias? = some name → name ∈ described.aliases.keys) ∧
      ∀ name, call.aliasMethod? = some name → name ∈ described.aliasMethods.keys := by
  have silent {call : Call} (spelled : call.alias? = none) (called : call.aliasMethod? = none) :
      (∀ name, call.alias? = some name → name ∈ described.aliases.keys) ∧
        ∀ name, call.aliasMethod? = some name → name ∈ described.aliasMethods.keys := by
    simp [spelled, called]
  refine forall_sectionsCalls (fun opens => ?_) (fun text => ?_) success
  · rcases headingCalls_cases opens with ⟨_, rfl, _, makes⟩ | ⟨_, rfl, moves⟩
    · obtain ⟨_, kind, each⟩ := unitCalls_cases makes
      intro call made
      rcases each call made with opening | ⟨_, front⟩
      · cases opening <;> exact silent rfl rfl
      · exact describes.aliases_of_introduces front
    · intro call made
      cases moves call made <;> exact silent rfl rfl
  · intro call made
    rcases textCalls_cases text with ⟨title, rfl, rfl⟩ | ⟨rfl, declares⟩
    · rw [List.mem_singleton.mp made]
      exact silent rfl rfl
    · cases declares call made <;> exact silent rfl rfl

/-- Sections give no name by both forms of alias, if the described unit has none in both. -/
theorem Describes.sectionsCalls_apart
    (apart : ∀ name ∈ described.aliases.keys, name ∉ described.aliasMethods.keys) {unit : Option String}
    {parts : List Section} {calls : List Call} (success : sectionsCalls metadata unit parts = .ok calls)
    (key : String) : ∀ name ∈ aliasesOf key calls, name ∉ aliasMethodsOf key calls := by
  intro name spelled called
  obtain ⟨call, made, gives⟩ := List.mem_filterMap.mp spelled
  obtain ⟨other, also, takes⟩ := List.mem_filterMap.mp called
  have given := describes.aliases_mem success
  exact apart name ((given call (List.mem_of_mem_filter made)).1 name gives)
    ((given other (List.mem_of_mem_filter also)).2 name takes)

/-- After front matter for a unit whose two forms of alias name different methods, sections make consistent
calls exactly if they are legible. -/
theorem Describes.consistent_sectionsCalls_iff
    (apart : ∀ name ∈ described.aliases.keys, name ∉ described.aliasMethods.keys) {parts : List Section}
    (levels : ∀ part ∈ parts, part.heading.level = 1 ∨ part.heading.level = 2 ∨ part.heading.level = 3)
    (first : ∀ part, parts.head? = some part → part.heading.level = 1) :
    (∃ calls, sectionsCalls metadata none parts = .ok calls ∧ ∀ key, Consistent key calls) ↔
      Legible parts := by
  have kinds {calls : List Call} (success : sectionsCalls metadata none parts = .ok calls) (key : String) :
      kindsOf key calls = ((stretches parts).2.filter (·.unit == key)).map (titleKind ·.title) := by
    have same := kindsOf_sectionsCalls success key
    simp only [describes.unitKind_eq] at same
    have same : (kindsOf key calls).map (Except.ok (ε := ReadFault)) =
        (((stretches parts).2.filter (·.unit == key)).map (titleKind ·.title)).map Except.ok := by
      rw [same, List.map_map]
      rfl
    exact List.map_injective_iff.mpr (fun _ _ => Except.ok.inj) same
  have readable := @Describes.readable_sectionsCalls_iff _ _ describes none parts levels fun _ => first
  constructor
  · rintro ⟨calls, success, consistent⟩
    refine ⟨readable.mp ⟨calls, success, fun call made => ?_⟩, fun stretch member other listed same => ?_⟩
    · cases addressed : call.unit? with
      | none => exact Draft.Call.flawless_of_document addressed
      | some key => exact (consistent key).flawless call made addressed
    · have agree := (consistent other.unit).agree
      rw [kinds success] at agree
      exact agree _ (List.mem_map_of_mem (by simp [member, same])) _
        (List.mem_map_of_mem (by simp [listed]))
  · rintro ⟨each, agree⟩
    obtain ⟨calls, success, flawless⟩ := readable.mpr each
    refine ⟨calls, success, fun key => ⟨sectionsCalls_openedFirst success (by simp),
      fun call made _ => flawless call made, ?_, ?_⟩⟩
    · rw [kinds success]
      intro kind member other listed
      obtain ⟨stretch, kept, rfl⟩ := List.mem_map.mp member
      obtain ⟨twin, held, rfl⟩ := List.mem_map.mp listed
      simp only [List.mem_filter, beq_iff_eq] at kept held
      exact agree stretch kept.1 twin held.1 (kept.2.trans held.2.symm)
    · exact describes.sectionsCalls_apart apart success key

end LiterateRuby.Literate
