import LiterateRuby.Failure
import LiterateRuby.Proofs.Draft.Refused
import LiterateRuby.Proofs.Literate.Methods
import LiterateRuby.Proofs.Literate.Title
import LiterateRuby.Proofs.Text.Trim

/-! # The faults that reading ends in

Every method title is read (`exists_readTitle`), and the unit that a reader has open is in the draft after
every step, so a call for it is refused only for what it says. What is left are `Ordinary` faults and integers
with too many digits. Which faults are expected is left open: `meets_readSections` asks only that these are.
It follows the sections of a text, and `readInto_result` says that a text is read section by section.
-/

namespace LiterateRuby.Literate

open Draft (HasUnit Refusal)
open FrontMatter (namesIn nameData pairData valueData entriesIn)
open LiterateRuby.Except (Meets)

/-! ## Method titles -/

/-- Every method title is read. -/
theorem exists_readTitle (title : List Char) : ∃ method, readTitle title = .ok method := by
  have each : ∀ token ∈ ((parenthesized? title).map splitParameters).getD [],
      ∃ parameter, readParameter token = .ok parameter := by
    intro token member
    cases inner : parenthesized? title with
    | none =>
      rw [inner] at member
      cases member
    | some list =>
      rw [inner] at member
      obtain ⟨listed, filled⟩ := List.mem_filter.mp member
      obtain ⟨piece, _, rfl⟩ := List.mem_map.mp listed
      exact exists_readParameter (by simpa using filled) fun c last => Text.shown_of_getLast?_trim last
  obtain ⟨parameters, success⟩ := Except.exists_mapM each
  unfold readTitle
  dsimp only
  rw [success]
  exact ⟨_, rfl⟩

/-! ## Reading section by section -/

/-- Reads what is left of the open section, then the sections after it. -/
def readSections (metadata : Metadata) (position : Position) (text : List (List Char)) :
    List Section → Except ReadFault Position
  | [] => flush { position with buffer := text.reverse ++ position.buffer }
  | part :: rest =>
    flush { position with buffer := text.reverse ++ position.buffer } >>= fun position =>
    (readHeading metadata position part.heading).result >>= fun position =>
    readSections metadata position part.text rest

private theorem readSections_cons_text (metadata : Metadata) (position : Position) (line : List Char)
    (text : List (List Char)) (parts : List Section) :
    readSections metadata position (line :: text) parts =
      readSections metadata { position with buffer := line :: position.buffer } text parts := by
  cases parts <;> simp [readSections]

/-- Reading lines to their end is reading their sections. -/
theorem readLines_flush (metadata : Metadata) (position : Position) (lines : List Line) :
    (readLines metadata position lines).result >>= flush =
      readSections metadata position (sections lines).1 (sections lines).2 := by
  induction lines generalizing position with
  | nil => rfl
  | cons line rest ih =>
    cases line with
    | content text =>
      rw [sections, readSections_cons_text, ← ih]
      rfl
    | heading heading =>
      simp only [readLines, readLine, sections, readSections, Outcome.result_bind, Outcome.result_liftM,
        bind_assoc, ih]
      rfl

private theorem readSections_of_unopened {position : Position} (unopened : position.unit = none)
    (metadata : Metadata) (text : List (List Char)) (parts : List Section) :
    readSections metadata position text parts = readSections metadata position [] parts := by
  cases parts <;> simp only [readSections, flush, unopened]

/-- Reading a text is reading its sections, after its front matter. -/
theorem readInto_result [DataFormat] (draft : Draft) (filename : Option String) (text : String) :
    (readInto draft filename text).result =
      if (Text.trim (Text.unixLines text.toList)).isEmpty then .error .empty
      else
        (FrontMatter.split (Text.trim (Text.unixLines text.toList))).mapError ReadFault.frontMatter >>= fun front =>
        (Datum.checkWords (nameData (front.metadata.get? "require"))).mapError .number >>= fun _ =>
        match textSections? filename front with
        | none => .error .noUnitHeading
        | some parts =>
          readSections front.metadata
            { draft := (namesIn (front.metadata.get? "require")).foldl Draft.addRequire
                (draft.setMetadata front.metadata) } [] parts >>= fun last => .ok last.draft := by
  unfold readInto
  dsimp only
  split
  · rfl
  cases FrontMatter.split (Text.trim (Text.unixLines text.toList)) with
  | error fault => rfl
  | ok front =>
    simp only [Outcome.result_bind, Outcome.result_ofExcept, Except.mapError_ok, Except.ok_bind,
      result_takeNames]
    cases Datum.checkWords (nameData (front.metadata.get? "require")) with
    | error fault => rfl
    | ok _ =>
      simp only [Except.mapError_ok, Except.ok_bind, textSections?]
      generalize scan false (Text.lines front.body) = lines
      have reads (position : Position) :
          ((readLines front.metadata position lines).result >>= fun last =>
            flush last >>= fun ended => pure ended.draft) =
            readSections front.metadata position (sections lines).1 (sections lines).2 >>= fun last =>
              .ok last.draft := by
        rw [← readLines_flush, bind_assoc]
        rfl
      split
      · simp only [Outcome.result_bind, Outcome.result_pure, Outcome.result_liftM, Except.ok_bind]
        exact (reads _).trans (by rw [readSections_of_unopened rfl])
      · cases inferredName? filename front lines with
        | none => rfl
        | some name =>
          simp only [Outcome.result_bind, Outcome.result_pure, Outcome.result_liftM, Option.map_some,
            readSections, bind_assoc]
          exact congrArg (fun next => (openUnit front.metadata _ name.toList).result >>= next) (funext reads)

/-! ## Expected faults -/

/-- A fault that is a broken rule of the notation or of a document. -/
def ReadFault.Ordinary : ReadFault → Prop
  | .frontMatter _ | .parameter _ | .number _ => False
  | .refused refusal => refusal.Ordinary
  | _ => True

/-- The text of the value that a declaration gives. -/
def Declaration.value? : Declaration → Option (List Char)
  | .constant _ value | .classVariable _ value => some value
  | _ => none

/-- An integer with too many digits stands in the declarations of some lines. -/
def DeclaresOverlong (lines : List (List Char)) (digits : Nat) : Prop :=
  ∃ line ∈ Text.lines (Text.trim (Text.unlines lines)), ∃ value,
    (readDeclaration (Text.trim line)).value? = some value ∧ readValue value = .error ⟨digits⟩

/-- The values of front matter that are put into words where a title opens a unit: the declared kind, if the
title leaves the kind open, and what describes the unit that is opened first. -/
def titleData (metadata : Metadata) (opened : Bool) (title : List Char) : List Datum :=
  (if kindInTitle? title = none then (metadata.get? "type").toList else []) ++
    if opened then []
    else
      match unitKind metadata title with
      | .ok kind => frontMatterData metadata kind
      | .error _ => []

/-- The values of front matter that are put into words while sections are read. -/
def sectionsData (metadata : Metadata) : Bool → List Section → List Datum
  | _, [] => []
  | opened, part :: rest =>
    if part.heading.level = 1 then
      titleData metadata opened part.heading.title ++ sectionsData metadata true rest
    else sectionsData metadata opened rest

/-- Too many digits of an integer in some values are an expected fault. -/
def Foresees (expected : ReadFault → Prop) (values : List Datum) : Prop :=
  ∀ value ∈ values, ∀ digits, value.overlong? = some digits → expected (.number ⟨digits⟩)

private theorem foresees_append {expected : ReadFault → Prop} {first second : List Datum} :
    Foresees expected (first ++ second) ↔ Foresees expected first ∧ Foresees expected second :=
  List.forall_mem_append

theorem exists_of_overlongAll? {values : List Datum} {digits : Nat}
    (found : Datum.overlongAll? values = some digits) : ∃ value ∈ values, value.overlong? = some digits := by
  induction values with
  | nil => cases found
  | cons value rest ih =>
    rcases Option.or_eq_some_iff.mp found with first | ⟨_, later⟩
    · exact ⟨value, List.mem_cons_self, first⟩
    · obtain ⟨other, member, long⟩ := ih later
      exact ⟨other, List.mem_cons_of_mem _ member, long⟩

/-- A reader that remembers its open unit, which the draft holds. -/
structure Position.Standing (position : Position) : Prop where
  opened : position.opened = position.unit.isSome
  present : ∀ unit, position.unit = some unit → position.draft.HasUnit unit

section

variable {expected : ReadFault → Prop}

theorem meets_checkWords {values : List Datum} (foresees : Foresees expected values) :
    Meets (fun _ => True) expected ((Datum.checkWords values).mapError ReadFault.number) := by
  unfold Datum.checkWords
  cases found : Datum.overlongAll? values with
  | none => trivial
  | some digits =>
    obtain ⟨value, member, long⟩ := exists_of_overlongAll? found
    exact foresees value member digits long

private theorem meets_takeNames (key : String) {value : Option Datum}
    (foresees : Foresees expected (nameData value)) :
    Meets (fun _ => True) expected (takeNames key value).result := by
  rw [result_takeNames]
  exact (meets_checkWords foresees).bind fun _ _ => trivial

private theorem meets_takePairs {metadata : Metadata} {key : String}
    (foresees : Foresees expected (pairData (entriesIn (metadata.get? key)))) :
    Meets (fun _ => True) expected (takePairs metadata key).result := by
  rw [result_takePairs]
  exact (meets_checkWords foresees).bind fun _ _ => trivial

private theorem meets_takeValues {metadata : Metadata} {key : String}
    (foresees : Foresees expected (valueData (entriesIn (metadata.get? key)))) :
    Meets (fun _ => True) expected (takeValues metadata key).result := by
  rw [result_takeValues]
  exact (meets_checkWords foresees).bind fun _ _ => trivial

variable (ordinary : ∀ fault, fault.Ordinary → expected fault)
include ordinary

private theorem meets_call {unit : String} {result : Except Refusal Draft}
    (continues : Draft.Continues unit result) :
    Meets (HasUnit unit) expected (result.mapError ReadFault.refused) :=
  continues.mapError fun refusal proper => ordinary (.refused refusal) proper

private theorem meets_forEach {α : Type} {unit : String} (change : Draft → α → Except Refusal Draft)
    (continues : ∀ draft item, draft.HasUnit unit → Draft.Continues unit (change draft item)) (items : List α)
    {draft : Draft} (present : draft.HasUnit unit) :
    Meets (HasUnit unit) expected (forEach items change draft).result :=
  meets_call ordinary (Meets.foldlM (fun item _ draft present => continues draft item present) present)

/-- Front matter describes a unit that is there, or its faults are expected. -/
theorem meets_applyFrontMatter {metadata : Metadata} {kind : RubyUnit.Kind} {unit : String} {draft : Draft}
    (present : draft.HasUnit unit) (foresees : Foresees expected (frontMatterData metadata kind)) :
    Meets (HasUnit unit) expected (applyFrontMatter metadata kind unit draft).result := by
  simp only [frontMatterData, declaredData, foresees_append] at foresees
  obtain ⟨named, ⟨innerReader, reader⟩, ⟨innerWriter, writer⟩, ⟨innerBoth, both⟩, included, extended, constants,
    classVariables, aliases, aliasMethods⟩ := foresees
  have declares {accessor : Accessor} {key : String}
      (inner : Foresees expected (nameData (FrontMatter.nested? metadata "attr" key)))
      (outer : Foresees expected (nameData (metadata.get? accessor.keyword))) {draft : Draft}
      (present : draft.HasUnit unit) :
      Meets (HasUnit unit) expected ((takeNames key (FrontMatter.nested? metadata "attr" key)).result >>= fun first =>
        (takeNames accessor.keyword (metadata.get? accessor.keyword)).result >>= fun second =>
        (call (draft.addDeclared unit accessor ((first ++ second).map fun name =>
          String.ofList (Text.dropStart [':'] name.toList)))).result) :=
    (meets_takeNames key inner).bind fun first _ => (meets_takeNames accessor.keyword outer).bind fun second _ =>
      meets_call ordinary (Draft.continues_change present _)
  have content {draft : Draft} (present : draft.HasUnit unit) :=
    (declares innerReader reader present).bind fun draft present =>
    (declares innerWriter writer present).bind fun draft present =>
    (declares innerBoth both present).bind fun draft present =>
    (meets_takeNames "include" included).bind fun names _ =>
    (meets_forEach ordinary (fun draft name => draft.addInclude unit name)
      (fun draft name present => Draft.continues_change present _) names present).bind fun draft present =>
    (meets_takeNames "extend" extended).bind fun names _ =>
    (meets_forEach ordinary (fun draft name => draft.addExtend unit name)
      (fun draft name present => Draft.continues_change present _) names present).bind fun draft present =>
    (meets_takeValues constants).bind fun values _ =>
    (meets_forEach ordinary (fun draft entry => draft.addConstant unit entry.1 entry.2)
      (fun draft _ present => Draft.continues_addConstant present _ _) values present).bind fun draft present =>
    (meets_takeValues classVariables).bind fun values _ =>
    (meets_forEach ordinary (fun draft entry => draft.addClassVariable unit entry.1 entry.2)
      (fun draft _ present => Draft.continues_addClassVariable present _ _) values present).bind fun draft present =>
    (meets_takePairs aliases).bind fun pairs _ =>
    (meets_forEach ordinary (fun draft entry => draft.addAlias unit entry.1 entry.2)
      (fun draft _ present => Draft.continues_addAlias present _ _) pairs present).bind fun draft present =>
    (meets_takePairs aliasMethods).bind fun pairs _ =>
    meets_forEach ordinary (fun draft entry => draft.addAliasMethod unit entry.1 entry.2)
      (fun draft _ present => Draft.continues_addAliasMethod present _ _) pairs present
  unfold applyFrontMatter
  cases given : (metadata.get? "inherits_from").filter Datum.isGiven with
  | none =>
    simp only [Outcome.result_bind, Outcome.result_pure, Except.ok_bind]
    exact content present
  | some superclass =>
    cases kind with
    | mod =>
      simp only [Outcome.result_bind, Outcome.result_warn, Outcome.result_pure, Except.ok_bind]
      exact content present
    | cls =>
      simp only [superclassData, given] at named
      simp only [Outcome.result_bind]
      exact (meets_checkWords named).bind fun _ _ =>
        (meets_call ordinary (Draft.continues_setSuperclass present superclass.text)).bind fun draft => content

private theorem meets_unitKind {metadata : Metadata} {title : List Char}
    (foresees : kindInTitle? title = none → Foresees expected (metadata.get? "type").toList) :
    Meets (fun kind => unitKind metadata title = .ok kind) expected (unitKind metadata title) := by
  unfold unitKind
  cases heads : kindInTitle? title with
  | some head => exact rfl
  | none =>
    have foresees := foresees heads
    dsimp only
    unfold declaredKind
    split
    · exact rfl
    · exact rfl
    · next declared _ found =>
      rw [found] at foresees
      cases worded : Datum.checkWords [declared] with
      | error fault =>
        have meets := meets_checkWords foresees
        rw [Option.toList_some, worded] at meets
        exact meets
      | ok _ =>
        dsimp only [Except.mapError_ok, Except.ok_bind]
        split
        · exact rfl
        · exact ordinary _ trivial

private theorem meets_openedDraft {metadata : Metadata} {opened : Bool} {kind : RubyUnit.Kind} {title : List Char}
    (whole : "" ∉ unitPath title)
    (foresees : opened = false → Foresees expected (frontMatterData metadata kind)) (draft : Draft) :
    Meets (HasUnit (unitKey title)) expected (openedDraft metadata opened kind (unitPath title) draft) := by
  have named : (unitPath title).getLast?.getD "" ≠ "" := by
    rw [List.getLast?_eq_some_getLast (unitPath_ne_nil title), Option.getD_some]
    exact fun empty => whole (empty ▸ List.getLast_mem (unitPath_ne_nil title))
  have adds := (Draft.continues_addUnit (ensureHolders [] draft (unitPath title).dropLast) named kind
    (unitPath title).dropLast).mapError fun refusal proper => ordinary (.refused refusal) proper
  refine adds.bind fun added holds => ?_
  obtain ⟨keyed, present⟩ := holds
  rw [keyOf_unitPath] at keyed
  rw [keyed] at present ⊢
  refine (meets_call ordinary (Draft.continues_change present _)).bind fun draft present => ?_
  refine (meets_call ordinary (Draft.continues_change present _)).bind fun draft present => ?_
  cases opened with
  | true => exact present
  | false => exact meets_applyFrontMatter ordinary present (foresees rfl)

/-- A title opens a unit, or its faults are expected. -/
theorem meets_openUnit {metadata : Metadata} {position : Position} {title : List Char}
    (foresees : Foresees expected (titleData metadata position.opened title)) :
    Meets (fun next => next.Standing ∧ next.opened = true ∧ next.method = none ∧ next.buffer = position.buffer)
      expected (openUnit metadata position title).result := by
  obtain ⟨declared, described⟩ := foresees_append.mp foresees
  have kinds : Meets (fun kind => unitKind metadata title = .ok kind) expected (unitKind metadata title) :=
    meets_unitKind ordinary fun untitled => by rwa [if_pos untitled] at declared
  rw [openUnit_result]
  refine kinds.bind fun kind known => ?_
  split
  · exact ordinary _ trivial
  · next whole =>
    have opens : Meets (HasUnit (unitKey title)) expected
        (openedDraft metadata position.opened kind (unitPath title) position.draft) :=
      meets_openedDraft ordinary (by simpa using whole) (fun unopened => by rwa [unopened, known] at described)
        position.draft
    exact opens.bind fun draft present => ⟨⟨rfl, fun unit same => by cases same; exact present⟩, rfl, rfl, rfl⟩

private theorem meets_declareLine {unit : String} {line : List Char} {draft : Draft} (present : draft.HasUnit unit)
    (foresees : ∀ value, (readDeclaration (Text.trim line)).value? = some value → ∀ digits,
      readValue value = .error ⟨digits⟩ → expected (.number ⟨digits⟩)) :
    Meets (HasUnit unit) expected (declareLine unit draft line) := by
  have values (value : List Char) (found : (readDeclaration (Text.trim line)).value? = some value) :
      Meets (fun _ => True) expected ((readValue value).mapError ReadFault.number) := by
    cases read : readValue value with
    | ok constant => trivial
    | error fault => exact foresees value found fault.digits read
  unfold declareLine
  split
  · split
    · exact present
    · exact meets_call ordinary (Draft.continues_addAttribute present _ _)
  · next name value found =>
    exact (values value (by rw [found]; rfl)).bind fun constant _ =>
      meets_call ordinary (Draft.continues_addConstant present name constant)
  · next name value found =>
    exact (values value (by rw [found]; rfl)).bind fun constant _ =>
      meets_call ordinary (Draft.continues_addClassVariable present name constant)
  · exact present

/-- The end of a section leaves the reader where it stood, or its faults are expected. -/
theorem meets_flush {position : Position} (standing : position.Standing)
    (declared : position.unit.isSome = true → position.method = none →
      ∀ digits, DeclaresOverlong position.buffer.reverse digits → expected (.number ⟨digits⟩)) :
    Meets (fun next => next.Standing ∧ next.opened = position.opened ∧ next.buffer = []) expected
      (flush position) := by
  cases opened : position.unit with
  | none =>
    rw [flush_of_unopened opened]
    exact ⟨⟨standing.opened, standing.present⟩, rfl, rfl⟩
  | some unit =>
    have present := standing.present unit opened
    have stands {draft : Draft} (present : draft.HasUnit unit) :
        Position.Standing { position with draft, unit := some unit, buffer := [], method := none } :=
      ⟨standing.opened.trans (by rw [opened]), fun other same => by
        cases same
        exact present⟩
    unfold flush
    rw [opened]
    cases titled : position.method with
    | some method =>
      exact (meets_call ordinary (Draft.continues_addMethod present _)).bind fun draft present =>
        ⟨stands present, rfl, rfl⟩
    | none =>
      dsimp only
      split
      · exact ⟨stands present, rfl, rfl⟩
      · refine (Meets.foldlM (fun line member draft present => ?_) present).bind fun draft present =>
          ⟨stands present, rfl, rfl⟩
        exact meets_declareLine ordinary present fun value found digits long =>
          declared (by rw [opened]; rfl) titled digits ⟨line, member, value, found, long⟩

private theorem meets_flush_text {position : Position} (standing : position.Standing)
    (unbuffered : position.buffer = [])
    {text : List (List Char)}
    (declared : position.unit.isSome = true → position.method = none → ∀ digits, DeclaresOverlong text digits →
      expected (.number ⟨digits⟩)) :
    Meets (fun next => next.Standing ∧ next.opened = position.opened ∧ next.buffer = []) expected
      (flush { position with buffer := text.reverse ++ position.buffer }) := by
  refine meets_flush ordinary ⟨standing.opened, standing.present⟩ fun opened untitled digits long => ?_
  rw [unbuffered, List.append_nil, List.reverse_reverse] at long
  exact declared opened untitled digits long

omit ordinary in
private theorem meets_openMethod {position : Position} (standing : position.Standing) (title : List Char) :
    Meets (fun next => next.Standing ∧ next.opened = position.opened ∧ next.buffer = position.buffer ∧
      next.method.isSome = true) expected (openMethod position title) := by
  obtain ⟨method, read⟩ := exists_readTitle title
  unfold openMethod
  rw [read]
  exact ⟨⟨standing.opened, standing.present⟩, rfl, rfl, rfl⟩

/-- A heading is read, or its faults are expected. A method waits for its text after the heading of a method. -/
theorem meets_readHeading {metadata : Metadata} {position : Position} {heading : Heading}
    (standing : position.Standing)
    (foresees : heading.level = 1 → Foresees expected (titleData metadata position.opened heading.title))
    (level : heading.level = 1 ∨ heading.level = 2 ∨ heading.level = 3) :
    Meets (fun next => next.Standing ∧ next.opened = (position.opened || heading.level == 1) ∧
      next.buffer = position.buffer ∧ (heading.isMethod = true → next.method.isSome = true)) expected
      (readHeading metadata position heading).result := by
  unfold readHeading
  by_cases first : heading.level = 1
  · rw [if_pos first]
    refine (meets_openUnit ordinary (foresees first)).mono ?_
    rintro next ⟨stands, opened, _, buffer⟩
    exact ⟨stands, by simp [opened, first], buffer, fun titled => by simp [Heading.isMethod, first] at titled⟩
  · have unchanged : (position.opened || heading.level == 1) = position.opened := by simp [first]
    rw [if_neg first, unchanged]
    cases opened : position.unit with
    | none => exact ordinary _ trivial
    | some unit =>
      have present := standing.present unit opened
      have stands {draft : Draft} (present : draft.HasUnit unit) :
          Position.Standing { position with draft, unit := some unit } :=
        ⟨standing.opened.trans (by rw [opened]), fun other same => by
          cases same
          exact present⟩
      dsimp only
      by_cases third : heading.level = 3
      · rw [if_pos third]
        refine (meets_openMethod standing heading.title).mono ?_
        rintro next ⟨stands, opened, buffer, method⟩
        exact ⟨stands, opened, buffer, fun _ => method⟩
      · have second : heading.level = 2 := (level.resolve_left first).resolve_right third
        rw [if_neg third]
        cases set : Visibility.ofText? (String.ofList heading.title) with
        | some visibility =>
          have plain : heading.isMethod = false := by simp [Heading.isMethod, Heading.sets?, second, set]
          dsimp only
          rw [Outcome.result_bind]
          refine (meets_call ordinary (Draft.continues_change present _)).bind fun draft present => ?_
          rw [Outcome.result_bind]
          refine (meets_call ordinary (Draft.continues_change present _)).bind fun draft present => ?_
          exact ⟨⟨(stands present).opened, (stands present).present⟩, rfl, rfl, fun titled => by
            rw [plain] at titled
            cases titled⟩
        | none =>
          dsimp only
          split
          · next block =>
            have plain : heading.isMethod = false := by simp [Heading.isMethod, Heading.sets?, second, block]
            rw [Outcome.result_bind]
            refine (meets_call ordinary (Draft.continues_change present _)).bind fun draft present => ?_
            exact ⟨⟨(stands present).opened, (stands present).present⟩, rfl, rfl, fun titled => by
              rw [plain] at titled
              cases titled⟩
          · rw [Outcome.result_bind]
            refine (meets_call ordinary (Draft.continues_change present _)).bind fun draft present => ?_
            refine (meets_openMethod (stands present) heading.title).mono ?_
            rintro next ⟨stands, opened, buffer, method⟩
            exact ⟨stands, opened, buffer, fun _ => method⟩

/-- Sections are read, or their faults are expected. -/
theorem meets_readSections {metadata : Metadata} {parts : List Section}
    (levels : ∀ part ∈ parts, part.heading.level = 1 ∨ part.heading.level = 2 ∨ part.heading.level = 3)
    (below : ∀ part ∈ parts, part.heading.isMethod = false → ∀ digits, DeclaresOverlong part.text digits →
      expected (.number ⟨digits⟩))
    {position : Position} (standing : position.Standing)
    (foresees : Foresees expected (sectionsData metadata position.opened parts)) {text : List (List Char)}
    (unbuffered : position.buffer = [])
    (declared : position.unit.isSome = true → position.method = none → ∀ digits, DeclaresOverlong text digits →
      expected (.number ⟨digits⟩)) :
    Meets (fun _ => True) expected (readSections metadata position text parts) := by
  induction parts generalizing position text with
  | nil => exact (meets_flush_text ordinary standing unbuffered declared).mono fun _ _ => trivial
  | cons part rest ih =>
    refine (meets_flush_text ordinary standing unbuffered declared).bind fun middle ⟨stands, opened, cleared⟩ => ?_
    rw [← opened] at foresees
    refine (meets_readHeading ordinary stands (fun first => ?_) (levels part List.mem_cons_self)).bind
      fun next ⟨holds, reached, emptied, method⟩ => ?_
    · rw [sectionsData, if_pos first] at foresees
      exact (foresees_append.mp foresees).1
    · have later : Foresees expected (sectionsData metadata next.opened rest) := by
        rw [reached]
        rw [sectionsData] at foresees
        split at foresees
        · next first =>
          rw [first, beq_self_eq_true, Bool.or_true]
          exact (foresees_append.mp foresees).2
        · next other =>
          rwa [beq_false_of_ne other, Bool.or_false]
      have said : next.unit.isSome = true → next.method = none → ∀ digits, DeclaresOverlong part.text digits →
          expected (.number ⟨digits⟩) := by
        intro _ untitled digits long
        refine below part List.mem_cons_self ?_ digits long
        rw [Bool.eq_false_iff]
        intro titled
        have waits := method titled
        rw [untitled] at waits
        cases waits
      exact ih (fun other member => levels other (List.mem_cons_of_mem _ member))
        (fun other member => below other (List.mem_cons_of_mem _ member)) holds later (emptied.trans cleared) said

end

end LiterateRuby.Literate


