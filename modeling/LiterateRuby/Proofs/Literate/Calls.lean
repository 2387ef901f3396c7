import LiterateRuby.Proofs.Literate.UnitCalls

/-! # The calls that a text makes

`callsOf` lists the calls of a text section by section. A section is a heading with the lines up to the
next one: the method that a heading opens and the body that the next heading gives it stand together, so
that no open method has to be carried from one section to the next. `readInto_eq_ok_iff` says that a text
is read into a draft exactly if its calls can be run on the draft.
-/

namespace LiterateRuby.Literate

open Draft (Call Emits emits_call emits_foldlM emits_nothing emits_error)
open FrontMatter (namesIn)

def declarationCalls (unit : String) (line : List Char) : Except ReadFault (List Call) :=
  match readDeclaration (Text.trim line) with
  | .attributes accessor names =>
    if names.isEmpty then .ok [] else .ok [.addAttribute unit accessor names]
  | .constant name value => do return [.addConstant unit name (← (readValue value).mapError .number)]
  | .classVariable name value => do
    return [.addClassVariable unit name (← (readValue value).mapError .number)]
  | .nothing => .ok []

/-- The calls that a declaration makes, one rule for each kind of declaration. -/
inductive Declaration.Makes (unit : String) : Declaration → List Call → Prop
  | nothing : Makes unit .nothing []
  | unnamed {accessor : Accessor} : Makes unit (.attributes accessor []) []
  | attributes {accessor : Accessor} {names : List String} (given : names ≠ []) :
    Makes unit (.attributes accessor names) [.addAttribute unit accessor names]
  | constant {name : String} {text : List Char} {value : Constant} (read : readValue text = .ok value) :
    Makes unit (.constant name text) [.addConstant unit name value]
  | classVariable {name : String} {text : List Char} {value : Constant} (read : readValue text = .ok value) :
    Makes unit (.classVariable name text) [.addClassVariable unit name value]

theorem declarationCalls_eq_ok_iff {unit : String} {line : List Char} {calls : List Call} :
    declarationCalls unit line = .ok calls ↔ (readDeclaration (Text.trim line)).Makes unit calls := by
  unfold declarationCalls
  cases readDeclaration (Text.trim line) with
  | attributes accessor names =>
    cases names with
    | nil =>
      constructor
      · rintro ⟨⟩
        exact .unnamed
      · rintro ⟨⟩
        · rfl
        · next given => exact absurd rfl given
    | cons name rest =>
      constructor
      · rintro ⟨⟩
        exact .attributes (List.cons_ne_nil name rest)
      · rintro ⟨⟩
        rfl
  | constant name text | classVariable name text =>
    rw [Except.bind_eq_ok_iff]
    simp only [Except.mapError_eq_ok_iff]
    constructor
    · rintro ⟨value, read, same⟩
      cases same
      constructor
      exact read
    · rintro ⟨⟩
      exact ⟨_, ‹_›, rfl⟩
  | nothing =>
    constructor
    · rintro ⟨⟩
      exact .nothing
    · rintro ⟨⟩
      rfl

private theorem emits_declareLine (unit : String) (line : List Char) :
    Emits (fun draft => declareLine unit draft line) (declarationCalls unit line) := by
  unfold declareLine declarationCalls
  cases readDeclaration (Text.trim line) with
  | attributes accessor names =>
    dsimp only
    split
    · exact emits_nothing
    · exact emits_call fun _ => rfl
  | constant name value =>
    dsimp only
    cases readValue value with
    | error fault => exact emits_error _ _
    | ok value => exact emits_call fun _ => rfl
  | classVariable name value =>
    dsimp only
    cases readValue value with
    | error fault => exact emits_error _ _
    | ok value => exact emits_call fun _ => rfl
  | nothing => exact emits_nothing

/-- The body that lines make: trimmed, and without the fences around it. -/
def bodyOf (lines : List (List Char)) : String :=
  String.ofList (unwrapFence (Text.trim (Text.unlines lines)))

/-- The entry of a method with a title and the lines of its body. -/
def entryOf (method : MethodTitle) (lines : List (List Char)) : Draft.MethodEntry :=
  ⟨method.name, method.parameters, method.binding, bodyOf lines, none, none⟩

/-- The calls of the lines under a heading: they are the body of a method or declare parts of a
unit. -/
def textCalls (unit : String) (method : Option MethodTitle) (lines : List (List Char)) :
    Except ReadFault (List Call) :=
  match method with
  | some method => .ok [.addMethod unit (entryOf method lines)]
  | none =>
    if (Text.trim (Text.unlines lines)).isEmpty then .ok []
    else do
      return (← (Text.lines (Text.trim (Text.unlines lines))).mapM (declarationCalls unit)).flatten

/-- Lines that are no body make the calls of their declarations, also if there is nothing on them. -/
theorem textCalls_none (unit : String) (lines : List (List Char)) :
    textCalls unit none lines = do
      return (← (Text.lines (Text.trim (Text.unlines lines))).mapM (declarationCalls unit)).flatten := by
  unfold textCalls
  dsimp only
  split
  · next empty =>
    rw [List.isEmpty_iff.mp empty]
    rfl
  · rfl

private theorem flush_eq_ok_iff {position next : Position} {unit : String} (opened : position.unit = some unit) :
    flush position = .ok next ↔
      ∃ calls draft, textCalls unit position.method position.buffer.reverse = .ok calls ∧
        position.draft.Runs calls draft ∧
        next = { position with draft, buffer := [], method := none } := by
  unfold flush textCalls
  rw [opened]
  cases position.method with
  | some method =>
    have emits : Emits (fun draft =>
          (draft.addMethod unit (entryOf method position.buffer.reverse)).mapError ReadFault.refused)
        (.ok [.addMethod unit (entryOf method position.buffer.reverse)]) := emits_call fun _ => rfl
    exact emits.place_eq_ok_iff position.draft _ _
  | none =>
    dsimp only
    split
    · simp [eq_comm]
    · exact (emits_foldlM (emits_declareLine unit) _).place_eq_ok_iff position.draft _ _

/-- Lines before any unit say nothing. -/
theorem flush_of_unopened {position : Position} (unopened : position.unit = none) :
    flush position = .ok { position with buffer := [], method := none } := by
  unfold flush
  rw [unopened]

/-! ## Sections -/

/-- A heading and the lines up to the next one. -/
structure Section where
  heading : Heading
  text : List (List Char)

/-- The lines before the first heading, and the sections of the headings. -/
def sections : List Line → List (List Char) × List Section
  | [] => ([], [])
  | .content text :: rest => (text :: (sections rest).1, (sections rest).2)
  | .heading heading :: rest => ([], ⟨heading, (sections rest).1⟩ :: (sections rest).2)

theorem mem_headings_of_section {lines : List Line} {part : Section}
    (member : part ∈ (sections lines).2) : part.heading ∈ headings lines := by
  induction lines with
  | nil => simp [sections] at member
  | cons line rest ih =>
    cases line with
    | content text => exact ih member
    | heading heading =>
      rcases List.mem_cons.mp member with rfl | later
      · exact List.mem_cons_self
      · exact List.mem_cons_of_mem _ (ih later)

/-- The calls that a heading makes, the unit that is open under it and the method that it opens. -/
def headingCalls (metadata : Metadata) (unit : Option String) (heading : Heading) :
    Except ReadFault (List Call × String × Option MethodTitle) :=
  if heading.level = 1 then do
    return (← unitCalls metadata unit.isSome heading.title, unitKey heading.title, none)
  else
    match unit with
    | none => .error (.headingOutsideUnit (String.ofList heading.title))
    | some unit =>
      if heading.level = 3 then do
        return ([], unit, some (← (readTitle heading.title).mapError .parameter))
      else
        match Visibility.ofText? (String.ofList heading.title) with
        | some visibility =>
          .ok ([.exitSingleton unit, .setVisibility unit visibility], unit, none)
        | none =>
          if heading.title = singletonTitle then .ok ([.enterSingleton unit], unit, none)
          else do
            return ([.exitSingleton unit], unit,
              some (← (readTitle heading.title).mapError .parameter))

/-- A call that a declaration under a heading makes. -/
inductive Declares (unit : String) : Call → Prop
  | attributes (accessor : Accessor) (names : List String) : Declares unit (.addAttribute unit accessor names)
  | constant (name : String) (value : Constant) : Declares unit (.addConstant unit name value)
  | classVariable (name : String) (value : Constant) : Declares unit (.addClassVariable unit name value)

private theorem declarationCalls_declares {unit : String} {line : List Char} {calls : List Call}
    (success : declarationCalls unit line = .ok calls) : ∀ call ∈ calls, Declares unit call := by
  have makes := declarationCalls_eq_ok_iff.mp success
  generalize readDeclaration (Text.trim line) = declaration at makes
  cases makes with
  | nothing | unnamed => exact List.forall_mem_nil _
  | attributes given => exact List.forall_mem_singleton.mpr (.attributes _ _)
  | constant read => exact List.forall_mem_singleton.mpr (.constant _ _)
  | classVariable read => exact List.forall_mem_singleton.mpr (.classVariable _ _)

/-- The text under a heading is the body of a method or declares parts of a unit. -/
theorem textCalls_cases {unit : String} {method : Option MethodTitle} {lines : List (List Char)}
    {calls : List Call} (success : textCalls unit method lines = .ok calls) :
    (∃ title, method = some title ∧ calls = [.addMethod unit (entryOf title lines)]) ∨
      (method = none ∧ ∀ call ∈ calls, Declares unit call) := by
  cases method with
  | some title =>
    cases success
    exact .inl ⟨title, rfl, rfl⟩
  | none =>
    rw [textCalls_none] at success
    obtain ⟨parts, declared, same⟩ := Except.bind_eq_ok_iff.mp success
    cases same
    refine .inr ⟨rfl, fun call made => ?_⟩
    obtain ⟨part, member, inside⟩ := List.mem_flatten.mp made
    obtain ⟨line, _, success⟩ := Except.exists_of_mem_mapM declared member
    exact declarationCalls_declares success call inside

/-- A call for where the methods after a heading stand. -/
inductive Moves (unit : String) : Call → Prop
  | enter : Moves unit (.enterSingleton unit)
  | leave : Moves unit (.exitSingleton unit)
  | turn (visibility : Visibility) : Moves unit (.setVisibility unit visibility)

/-- The calls that a heading inside of a unit makes, and the method that it opens. -/
inductive HeadsWithin (unit : String) (heading : Heading) : List Call → Option MethodTitle → Prop
  | subsection {title : MethodTitle} (third : heading.level = 3) (read : readTitle heading.title = .ok title) :
    HeadsWithin unit heading [] (some title)
  | visibility {visibility : Visibility} (other : heading.level ≠ 3)
    (named : Visibility.ofText? (String.ofList heading.title) = some visibility) :
    HeadsWithin unit heading [.exitSingleton unit, .setVisibility unit visibility] none
  | block (other : heading.level ≠ 3) (titled : heading.title = singletonTitle) :
    HeadsWithin unit heading [.enterSingleton unit] none
  | leaving {title : MethodTitle} (other : heading.level ≠ 3)
    (unnamed : Visibility.ofText? (String.ofList heading.title) = none)
    (untitled : heading.title ≠ singletonTitle) (read : readTitle heading.title = .ok title) :
    HeadsWithin unit heading [.exitSingleton unit] (some title)

/-- The singleton block is no visibility. -/
theorem ofText?_singletonTitle : Visibility.ofText? (String.ofList singletonTitle) = none := by decide

/-- Under a heading of level two or three the same unit stays open. -/
theorem headingCalls_within_iff {metadata : Metadata} {unit inside : String} {heading : Heading}
    {calls : List Call} {method : Option MethodTitle} (level : heading.level ≠ 1) :
    headingCalls metadata (some unit) heading = .ok (calls, inside, method) ↔
      inside = unit ∧ HeadsWithin unit heading calls method := by
  unfold headingCalls
  rw [if_neg level]
  dsimp only
  constructor
  · intro success
    split at success
    · next third =>
      obtain ⟨title, read, same⟩ := Except.bind_eq_ok_iff.mp success
      cases same
      exact ⟨rfl, .subsection third (Except.mapError_eq_ok_iff.mp read)⟩
    · next other =>
      split at success
      · next visibility named =>
        cases success
        exact ⟨rfl, .visibility other named⟩
      · next unnamed =>
        split at success
        · next titled =>
          cases success
          exact ⟨rfl, .block other titled⟩
        · next untitled =>
          obtain ⟨title, read, same⟩ := Except.bind_eq_ok_iff.mp success
          cases same
          exact ⟨rfl, .leaving other unnamed untitled (Except.mapError_eq_ok_iff.mp read)⟩
  · rintro ⟨rfl, within⟩
    cases within with
    | subsection third read => rw [if_pos third, read]; rfl
    | visibility other named => rw [if_neg other, named]
    | block other titled => rw [if_neg other, titled, ofText?_singletonTitle]; rfl
    | leaving other unnamed untitled read =>
      rw [if_neg other, unnamed, read]
      exact if_neg untitled

theorem HeadsWithin.moves {unit : String} {heading : Heading} {calls : List Call} {method : Option MethodTitle}
    (within : HeadsWithin unit heading calls method) : ∀ call ∈ calls, Moves unit call := by
  cases within with
  | subsection _ _ => simp
  | @visibility visibility _ _ => simpa using ⟨Moves.leave, Moves.turn visibility⟩
  | block _ _ => simpa using Moves.enter
  | leaving _ _ _ _ => simpa using Moves.leave

theorem HeadsWithin.reads {unit : String} {heading : Heading} {calls : List Call} {title : MethodTitle}
    (within : HeadsWithin unit heading calls (some title)) : readTitle heading.title = .ok title := by
  cases within with
  | subsection _ read | leaving _ _ _ read => exact read

/-- A heading opens a unit, or it stands in the unit that is open. -/
theorem headingCalls_cases {metadata : Metadata} {unit : Option String} {heading : Heading}
    {calls : List Call} {inside : String} {method : Option MethodTitle}
    (success : headingCalls metadata unit heading = .ok (calls, inside, method)) :
    (heading.level = 1 ∧ inside = unitKey heading.title ∧ method = none ∧
        unitCalls metadata unit.isSome heading.title = .ok calls) ∨
      (heading.level ≠ 1 ∧ unit = some inside ∧ ∀ call ∈ calls, Moves inside call) := by
  by_cases level : heading.level = 1
  · unfold headingCalls at success
    rw [if_pos level] at success
    obtain ⟨opening, opens, same⟩ := Except.bind_eq_ok_iff.mp success
    cases same
    exact .inl ⟨level, rfl, rfl, opens⟩
  · cases unit with
    | none =>
      rw [headingCalls, if_neg level] at success
      cases success
    | some unit =>
      obtain ⟨rfl, within⟩ := (headingCalls_within_iff level).mp success
      exact .inr ⟨level, rfl, within.moves⟩

/-- The calls of sections one after the other, with the unit that is open before them. -/
def sectionsCalls (metadata : Metadata) : Option String → List Section → Except ReadFault (List Call)
  | _, [] => .ok []
  | unit, part :: rest => do
    let (opening, unit, method) ← headingCalls metadata unit part.heading
    let content ← textCalls unit method part.text
    return opening ++ (content ++ (← sectionsCalls metadata (some unit) rest))

private theorem readHeading_eq_ok_iff {metadata : Metadata} (position : Position) {next : Position}
    {heading : Heading}
    (opened : position.opened = position.unit.isSome) :
    (readHeading metadata position heading).result = .ok next ↔
      ∃ calls unit method draft,
        headingCalls metadata position.unit heading = .ok (calls, unit, method) ∧
        position.draft.Runs calls draft ∧
        next = { position with draft, unit := some unit, opened := true, method } := by
  obtain ⟨draft, unit, before, method, buffer⟩ := position
  dsimp only at opened
  subst opened
  unfold readHeading headingCalls
  split
  · rw [openUnit_eq_ok_iff]
    cases unitCalls metadata unit.isSome heading.title with
    | error fault => simp
    | ok calls => simp [pure, Except.pure]
  · cases unit with
    | none => simp
    | some unit =>
      have leaves : Emits (fun draft => (draft.exitSingleton unit).mapError ReadFault.refused)
          (.ok [.exitSingleton unit]) := emits_call fun _ => rfl
      dsimp only
      split
      · unfold openMethod
        cases readTitle heading.title with
        | error flaw => simp [Except.mapError]
        | ok method => simp [Except.mapError, pure, Except.pure, eq_comm]
      · cases Visibility.ofText? (String.ofList heading.title) with
        | some visibility =>
          have turns : Emits (fun draft => (draft.setVisibility unit visibility).mapError ReadFault.refused)
              (.ok [.setVisibility unit visibility]) := emits_call fun _ => rfl
          have placed := (leaves.andThen turns).place_eq_ok_iff draft
            (fun draft => ⟨draft, some unit, true, none, buffer⟩) next
          simpa [call] using placed
        | none =>
          dsimp only
          split
          · have enters : Emits (fun draft => (draft.enterSingleton unit).mapError ReadFault.refused)
                (.ok [.enterSingleton unit]) := emits_call fun _ => rfl
            have placed := enters.place_eq_ok_iff draft
              (fun draft => ⟨draft, some unit, true, none, buffer⟩) next
            simpa [call] using placed
          · unfold openMethod
            cases readTitle heading.title with
            | error flaw => cases draft.exitSingleton unit <;> simp [Except.mapError, call]
            | ok method =>
              have placed := leaves.place_eq_ok_iff draft
                (fun draft => ⟨draft, some unit, true, some method, buffer⟩) next
              simpa [call, Except.mapError] using placed

/-- The calls of lines before any section, in a unit that may not be open. -/
def leadingCalls (unit : Option String) (method : Option MethodTitle) (lines : List (List Char)) :
    Except ReadFault (List Call) :=
  match unit with
  | some unit => textCalls unit method lines
  | none => .ok []

private theorem flush_draft_eq_ok_iff {position next : Position} :
    flush position = .ok next ↔
      ∃ calls draft, leadingCalls position.unit position.method position.buffer.reverse = .ok calls ∧
        position.draft.Runs calls draft ∧
        next = { position with draft, buffer := [], method := none } := by
  cases opened : position.unit with
  | some unit => rw [flush_eq_ok_iff opened, opened, leadingCalls]
  | none =>
    rw [flush_of_unopened opened, opened]
    simp [leadingCalls, eq_comm]

/-- A heading ends the section before it and opens its own. -/
theorem readLine_heading_eq_ok_iff {metadata : Metadata} {position next : Position} {heading : Heading}
    (opened : position.opened = position.unit.isSome) :
    (readLine metadata position (.heading heading)).result = .ok next ↔
      ∃ leading opening unit method draft,
        leadingCalls position.unit position.method position.buffer.reverse = .ok leading ∧
        headingCalls metadata position.unit heading = .ok (opening, unit, method) ∧
        position.draft.Runs (leading ++ opening) draft ∧ next = ⟨draft, some unit, true, method, []⟩ := by
  unfold readLine
  rw [Outcome.bind_result_eq_ok_iff, Outcome.result_liftM]
  simp only [flush_draft_eq_ok_iff]
  constructor
  · rintro ⟨_, ⟨leading, cleared, said, run, rfl⟩, heads⟩
    obtain ⟨opening, unit, method, draft, opens, enter, rfl⟩ :=
      (readHeading_eq_ok_iff ⟨cleared, position.unit, position.opened, none, []⟩ opened).mp heads
    exact ⟨leading, opening, unit, method, draft, said, opens,
      Draft.runs_append.mpr ⟨cleared, run, enter⟩, rfl⟩
  · rintro ⟨leading, opening, unit, method, draft, said, opens, run, rfl⟩
    obtain ⟨cleared, begins, enter⟩ := Draft.runs_append.mp run
    refine ⟨_, ⟨leading, cleared, said, begins, rfl⟩, ?_⟩
    exact (readHeading_eq_ok_iff ⟨cleared, position.unit, position.opened, none, []⟩ opened).mpr
      ⟨opening, unit, method, draft, opens, enter, rfl⟩

theorem sectionsCalls_cons_eq_ok_iff {metadata : Metadata} {unit : Option String} {part : Section}
    {rest : List Section} {calls : List Call} :
    sectionsCalls metadata unit (part :: rest) = .ok calls ↔
      ∃ opening inside method content later,
        headingCalls metadata unit part.heading = .ok (opening, inside, method) ∧
        textCalls inside method part.text = .ok content ∧
        sectionsCalls metadata (some inside) rest = .ok later ∧
        calls = opening ++ (content ++ later) := by
  rw [sectionsCalls]
  simp only [Except.bind_eq_ok_iff, pure, Except.pure, Except.ok.injEq, Prod.exists]
  constructor
  · rintro ⟨opening, inside, method, opens, content, holds, later, follows, same⟩
    exact ⟨opening, inside, method, content, later, opens, holds, follows, same.symm⟩
  · rintro ⟨opening, inside, method, content, later, opens, holds, follows, same⟩
    exact ⟨opening, inside, method, opens, content, holds, later, follows, same.symm⟩

/-- What holds of the calls of each heading and of the text under it holds of the calls of sections. -/
theorem forall_sectionsCalls {metadata : Metadata} {P : Call → Prop}
    (heads : ∀ {unit heading calls inside method},
      headingCalls metadata unit heading = .ok (calls, inside, method) → ∀ call ∈ calls, P call)
    (holds : ∀ {unit method lines calls}, textCalls unit method lines = .ok calls → ∀ call ∈ calls, P call)
    {unit : Option String} {parts : List Section} {calls : List Call}
    (success : sectionsCalls metadata unit parts = .ok calls) : ∀ call ∈ calls, P call := by
  induction parts generalizing unit calls with
  | nil =>
    cases success
    simp
  | cons part rest ih =>
    obtain ⟨opening, inside, method, content, later, opens, text, follows, rfl⟩ :=
      sectionsCalls_cons_eq_ok_iff.mp success
    intro call made
    rcases List.mem_append.mp made with first | made
    · exact heads opens call first
    · rcases List.mem_append.mp made with body | after
      · exact holds text call body
      · exact ih follows call after

/-- Reading lines to their end is reading what is left of the open section, then each section. -/
theorem readLines_eq_ok_iff {metadata : Metadata} {position : Position} {lines : List Line}
    {next : Draft} (opened : position.opened = position.unit.isSome) :
    (∃ last ended, (readLines metadata position lines).result = .ok last ∧ flush last = .ok ended ∧
        ended.draft = next) ↔
      ∃ leading calls,
        leadingCalls position.unit position.method (position.buffer.reverse ++ (sections lines).1) =
          .ok leading ∧
        sectionsCalls metadata position.unit (sections lines).2 = .ok calls ∧
        position.draft.Runs (leading ++ calls) next := by
  induction lines generalizing position with
  | nil =>
    simp only [readLines, sections, sectionsCalls, List.append_nil, Outcome.result_pure,
      flush_draft_eq_ok_iff, Except.ok.injEq]
    constructor
    · rintro ⟨_, _, rfl, ⟨calls, draft, made, run, rfl⟩, rfl⟩
      exact ⟨calls, [], made, rfl, by simpa using run⟩
    · rintro ⟨leading, _, made, rfl, run⟩
      exact ⟨position, _, rfl, ⟨leading, next, made, by simpa using run, rfl⟩, rfl⟩
  | cons line rest ih =>
    cases line with
    | content text =>
      have read := @ih { position with buffer := text :: position.buffer } opened
      simp only [List.reverse_cons, List.append_assoc, List.singleton_append] at read
      simp only [readLines, readLine, sections, Outcome.result_bind, Outcome.result_pure, Except.ok_bind]
      exact read
    | heading heading =>
      simp only [readLines, sections, Outcome.bind_result_eq_ok_iff, List.append_nil,
        readLine_heading_eq_ok_iff opened, sectionsCalls_cons_eq_ok_iff]
      constructor
      · rintro ⟨last, ended, ⟨_, ⟨leading, opening, unit, method, draft, said, opens, run, rfl⟩, reads⟩,
          flushed, same⟩
        obtain ⟨content, later, holds, follows, tail⟩ := (ih rfl).mp ⟨last, ended, reads, flushed, same⟩
        refine ⟨leading, _, said, ⟨opening, unit, method, content, later, opens, holds, follows, rfl⟩, ?_⟩
        rw [← List.append_assoc]
        exact Draft.runs_append.mpr ⟨draft, run, tail⟩
      · rintro ⟨leading, _, said, ⟨opening, unit, method, content, later, opens, holds, follows, rfl⟩, run⟩
        rw [← List.append_assoc] at run
        obtain ⟨draft, begins, tail⟩ := Draft.runs_append.mp run
        obtain ⟨last, ended, reads, flushed, same⟩ :=
          (@ih ⟨draft, some unit, true, method, []⟩ rfl).mpr ⟨content, later, holds, follows, tail⟩
        exact ⟨last, ended, ⟨_, ⟨leading, opening, unit, method, draft, said, opens, begins, rfl⟩, reads⟩,
          flushed, same⟩

def documentCalls (metadata : Metadata) : List Call :=
  .setMetadata (some metadata) :: (namesIn (metadata.get? "require")).map .addRequire

/-- Front matter makes calls for the document, not for a unit. -/
theorem documentCalls_unaddressed (metadata : Metadata) :
    ∀ call ∈ documentCalls metadata, call.unit? = none := by
  intro call made
  simp only [documentCalls, List.mem_cons, List.mem_map] at made
  rcases made with rfl | ⟨name, _, rfl⟩ <;> rfl

def callsOf [DataFormat] (filename : Option String) (text : String) : Except ReadFault (List Call) :=
  let text := Text.trim (Text.unixLines text.toList)
  if text.isEmpty then .error .empty
  else do
    let frontMatter ← (FrontMatter.split text).mapError ReadFault.frontMatter
    let metadata := frontMatter.metadata
    (Datum.checkWords (FrontMatter.nameData (metadata.get? "require"))).mapError .number
    let lines := scan false (Text.lines frontMatter.body)
    if (headings lines).any (·.level == 1) then
      return documentCalls metadata ++ (← sectionsCalls metadata none (sections lines).2)
    else
      match inferredName? filename frontMatter lines with
      | some name => do
        let opening ← unitCalls metadata false name.toList
        let leading ← textCalls (unitKey name.toList) none (sections lines).1
        return documentCalls metadata ++ (opening ++ (leading ++
          (← sectionsCalls metadata (some (unitKey name.toList)) (sections lines).2)))
      | none => .error .noUnitHeading

/-- The sections of a text. In a text that is named after its file, what stands before the first heading is
a section under that name. -/
def textSections? (filename : Option String) (front : FrontMatter) : Option (List Section) :=
  let lines := scan false (Text.lines front.body)
  if (headings lines).any (·.level == 1) then some (sections lines).2
  else (inferredName? filename front lines).map fun name =>
    ⟨⟨1, name.toList⟩, (sections lines).1⟩ :: (sections lines).2

private theorem sectionsCalls_of_name (metadata : Metadata) (name : List Char) (text : List (List Char))
    (rest : List Section) :
    sectionsCalls metadata none (⟨⟨1, name⟩, text⟩ :: rest) = do
      let opening ← unitCalls metadata false name
      let leading ← textCalls (unitKey name) none text
      return opening ++ (leading ++ (← sectionsCalls metadata (some (unitKey name)) rest)) := by
  rw [sectionsCalls, headingCalls, if_pos rfl]
  simp only [bind_assoc, pure_bind]
  rfl

/-- A text that is not empty makes the calls of its front matter for the document and those of its
sections. -/
theorem callsOf_eq_ok_iff [DataFormat] {filename : Option String} {text : String} {calls : List Call} :
    callsOf filename text = .ok calls ↔
      Text.trim (Text.unixLines text.toList) ≠ [] ∧
        ∃ front, FrontMatter.split (Text.trim (Text.unixLines text.toList)) = .ok front ∧
          Worded (FrontMatter.nameData (front.metadata.get? "require")) ∧
          ∃ parts, textSections? filename front = some parts ∧
            ∃ rest, sectionsCalls front.metadata none parts = .ok rest ∧
              calls = documentCalls front.metadata ++ rest := by
  unfold callsOf
  dsimp only
  split
  · next empty => simp [List.isEmpty_iff.mp empty]
  · next given =>
    rw [and_iff_right (by simpa using given), Except.bind_eq_ok_iff]
    refine exists_congr fun front => and_congr Except.mapError_eq_ok_iff ?_
    rw [Except.bind_eq_ok_iff]
    simp only [Except.mapError_eq_ok_iff, checkWords_eq_ok_iff, exists_const]
    refine and_congr_right fun _ => ?_
    have after (made : Except ReadFault (List Call)) :
        (do return documentCalls front.metadata ++ (← made)) = .ok calls ↔
          ∃ rest, made = .ok rest ∧ calls = documentCalls front.metadata ++ rest := by
      rw [Except.bind_eq_ok_iff]
      simp only [pure, Except.pure, Except.ok.injEq, @eq_comm _ calls]
    unfold textSections?
    dsimp only
    split
    · simp only [Option.some.injEq, exists_eq_left', after]
    · cases inferredName? filename front (scan false (Text.lines front.body)) with
      | none => simp
      | some name =>
        simp only [Option.map_some, Option.some.injEq, exists_eq_left', ← after, sectionsCalls_of_name, bind_assoc,
          pure_bind]

private theorem runs_requires {draft next : Draft} {names : List String} {calls : List Call} :
    draft.Runs (names.map .addRequire ++ calls) next ↔
      (names.foldl Draft.addRequire draft).Runs calls next := by
  induction names generalizing draft with
  | nil => rfl
  | cons name rest ih =>
    rw [List.map_cons, List.cons_append, Draft.runs_cons, List.foldl_cons, ← ih]
    constructor
    · rintro ⟨middle, reply, success, run⟩
      cases success
      exact run
    · intro run
      exact ⟨_, _, rfl, run⟩

theorem runs_documentCalls {draft next : Draft} {metadata : Metadata} {calls : List Call} :
    draft.Runs (documentCalls metadata ++ calls) next ↔
      ((namesIn (metadata.get? "require")).foldl Draft.addRequire (draft.setMetadata metadata)).Runs
        calls next := by
  rw [documentCalls, List.cons_append, Draft.runs_cons, ← runs_requires]
  constructor
  · rintro ⟨middle, reply, success, run⟩
    cases success
    exact run
  · intro run
    exact ⟨_, _, rfl, run⟩

/-- A text is read into a draft exactly if the calls that it makes can be run on the draft. -/
theorem readInto_eq_ok_iff [DataFormat] {draft next : Draft} {filename : Option String} {text : String} :
    (readInto draft filename text).result = .ok next ↔
      ∃ calls, callsOf filename text = .ok calls ∧ draft.Runs calls next := by
  unfold readInto callsOf
  dsimp only
  split
  · simp
  cases FrontMatter.split (Text.trim (Text.unixLines text.toList)) with
  | error fault => simp [Except.mapError]
  | ok front =>
    simp only [Outcome.result_bind, Outcome.result_ofExcept, Except.mapError_ok, Except.ok_bind,
      result_takeNames]
    cases Datum.checkWords (FrontMatter.nameData (front.metadata.get? "require")) with
    | error fault => simp [Except.mapError]
    | ok _ =>
    simp only [Except.mapError_ok, Except.ok_bind]
    generalize scan false (Text.lines front.body) = lines
    split
    · have reads := @readLines_eq_ok_iff front.metadata
        ⟨(namesIn (front.metadata.get? "require")).foldl Draft.addRequire
          (draft.setMetadata front.metadata), none, false, none, []⟩ lines next rfl
      simp only [leadingCalls, Except.ok.injEq] at reads
      simp only [Outcome.result_bind, Except.ok_bind, Outcome.result_liftM, Except.bind_eq_ok_iff,
        Except.ok.injEq, pure, Except.pure]
      constructor
      · rintro ⟨last, success, ended, flushed, same⟩
        obtain ⟨_, calls, rfl, made, run⟩ := reads.mp ⟨last, ended, success, flushed, same⟩
        exact ⟨_, ⟨calls, made, rfl⟩, runs_documentCalls.mpr run⟩
      · rintro ⟨_, ⟨calls, made, rfl⟩, run⟩
        obtain ⟨last, ended, success, flushed, same⟩ :=
          reads.mpr ⟨[], calls, rfl, made, runs_documentCalls.mp run⟩
        exact ⟨last, success, ended, flushed, same⟩
    · cases inferredName? filename front lines with
      | none => simp
      | some name =>
        simp only [Outcome.result_bind, Outcome.result_liftM,
          Except.bind_eq_ok_iff, Except.ok.injEq, pure, Except.pure, openUnit_eq_ok_iff]
        constructor
        · rintro ⟨_, ⟨opening, opened, opens, enter, rfl⟩, last, success, ended, flushed, same⟩
          obtain ⟨leading, calls, holds, made, run⟩ :=
            (readLines_eq_ok_iff rfl).mp ⟨last, ended, success, flushed, same⟩
          exact ⟨_, ⟨opening, opens, leading, holds, calls, made, rfl⟩,
            runs_documentCalls.mpr (Draft.runs_append.mpr ⟨opened, enter, run⟩)⟩
        · rintro ⟨_, ⟨opening, opens, leading, holds, calls, made, rfl⟩, run⟩
          obtain ⟨opened, enter, tail⟩ := Draft.runs_append.mp (runs_documentCalls.mp run)
          obtain ⟨last, ended, success, flushed, same⟩ :=
            (@readLines_eq_ok_iff front.metadata ⟨opened, some (unitKey name.toList), true, none, []⟩
              lines next rfl).mpr ⟨leading, calls, holds, made, tail⟩
          exact ⟨_, ⟨opening, opened, opens, enter, rfl⟩, last, success, ended, flushed, same⟩

end LiterateRuby.Literate
