import LiterateRuby.Proofs.Literate.Faults
import LiterateRuby.Proofs.Literate.Legible
import LiterateRuby.Session

/-! # Texts that are not read

A text is refused while it is read, never when its draft is built (`readInto_build`). What it is refused for is
a fault of the notation or of its front matter, but for two things: integers with too many digits, and what the
decoder of front matter raises besides its fault for malformed blocks (`read_refusals`).
-/

namespace LiterateRuby

/-! ## Integers with too many digits -/

private theorem Number.lt_of_overlong? {i : Int} {digits : Nat} (long : Number.overlong? i = some digits) :
    Number.maxIntDigits < digits := by
  unfold Number.overlong? at long
  dsimp only at long
  split at long
  · next exceeds =>
    cases long
    exact exceeds
  · cases long

namespace Datum

mutual

theorem lt_of_overlong? {value : Datum} {digits : Nat} (long : value.overlong? = some digits) :
    Number.maxIntDigits < digits := by
  cases value with
  | int value => exact Number.lt_of_overlong? long
  | list items | tuple items | set items => exact lt_of_overlongAll? long
  | map entries => exact lt_of_overlongEntries? long
  | _ => cases long

theorem lt_of_overlongAll? {values : List Datum} {digits : Nat} (long : overlongAll? values = some digits) :
    Number.maxIntDigits < digits := by
  cases values with
  | nil => cases long
  | cons value rest =>
    rcases Option.or_eq_some_iff.mp long with first | ⟨_, later⟩
    · exact lt_of_overlong? first
    · exact lt_of_overlongAll? later

theorem lt_of_overlongEntries? {entries : List (Datum × Datum)} {digits : Nat}
    (long : overlongEntries? entries = some digits) : Number.maxIntDigits < digits := by
  cases entries with
  | nil => cases long
  | cons entry rest =>
    rcases Option.or_eq_some_iff.mp long with first | ⟨_, later⟩
    · rcases Option.or_eq_some_iff.mp first with key | ⟨_, value⟩
      · exact lt_of_overlong? key
      · exact lt_of_overlong? value
    · exact lt_of_overlongEntries? later

end

end Datum

namespace Literate

open FrontMatter (nameData)
open LiterateRuby.Except (Meets)

private theorem lt_of_readValue {value : List Char} {digits : Nat} (long : readValue value = .error ⟨digits⟩) :
    Number.maxIntDigits < digits := by
  unfold readValue at long
  dsimp only at long
  split at long
  · cases read : readInteger (Text.trim value) with
    | ok i =>
      rw [read] at long
      cases long
    | error fault =>
      rw [read] at long
      cases long
      unfold readInteger at read
      dsimp only at read
      split at read
      · next exceeds =>
        cases read
        exact exceeds
      · cases read
  · split at long
    · cases long
    · split at long <;> cases long

/-! ## The block of front matter -/

namespace FrontMatter

/-- The block that a text starts with, between its delimiters. -/
def block? (text : List Char) : Option (List Char) :=
  match Text.lines text with
  | first :: rest =>
    if isDelimiter first && rest.any isDelimiter then some (Text.unlines (rest.takeWhile (!isDelimiter ·)))
    else none
  | [] => none

/-- A text with a block has the front matter that its block is decoded to. -/
theorem split_of_block? [DataFormat] {text block : List Char} (found : block? text = some block) :
    ∃ body, split text = ofBlock block >>= fun metadata => .ok ⟨metadata, body, true⟩ := by
  unfold block? at found
  unfold split
  generalize Text.lines text = lines at found ⊢
  cases lines with
  | nil => cases found
  | cons first rest =>
    dsimp only at found ⊢
    split at found
    · next closed =>
      obtain ⟨opens, closes⟩ := Bool.and_eq_true_iff.mp closed
      cases found
      rw [if_pos opens]
      cases left : rest.dropWhile (!isDelimiter ·) with
      | nil =>
        obtain ⟨line, member, delimits⟩ := List.any_eq_true.mp closes
        have inner := List.dropWhile_eq_nil_iff.mp left line member
        rw [delimits] at inner
        cases inner
      | cons line body => exact ⟨_, rfl⟩
    · cases found

/-- A text without a block has none or is missing its end. -/
theorem split_of_no_block [DataFormat] {text : List Char} (absent : block? text = none) :
    split text = .error .unclosed ∨ ∃ front, split text = .ok front := by
  unfold block? at absent
  unfold split
  generalize Text.lines text = lines at absent ⊢
  cases lines with
  | nil => exact .inr ⟨_, rfl⟩
  | cons first rest =>
    dsimp only at absent ⊢
    split
    · next opens =>
      left
      have unclosed : rest.dropWhile (!isDelimiter ·) = [] := by
        rw [List.dropWhile_eq_nil_iff]
        simpa [opens] using absent
      rw [unclosed]
    · exact .inr ⟨_, rfl⟩

private theorem ofDecoding_injective {fault other : DataFormat.Fault}
    (same : Fault.ofDecoding fault = .ofDecoding other) : fault = other := by
  cases fault <;> cases other <;> cases same <;> rfl

private theorem ofDatum_map_eq_error_iff {entries : List (Datum × Datum)} {fault : Fault} :
    ofDatum (.map entries) = .error fault ↔
      ∃ digits, Datum.overlongAll? (entries.map (·.1)) = some digits ∧ fault = .number ⟨digits⟩ := by
  cases found : Datum.overlongAll? (entries.map (·.1)) with
  | none => simp [ofDatum, Datum.checkWords, found, pure, Except.pure]
  | some digits => simp [ofDatum, Datum.checkWords, found, eq_comm]

/-- What is made of a decoded value never ends in a fault of the decoder. -/
theorem ofDatum_ne_ofDecoding (value : Datum) (fault : DataFormat.Fault) :
    ofDatum value ≠ .error (.ofDecoding fault) := by
  intro fails
  cases value with
  | map entries =>
    obtain ⟨digits, _, same⟩ := ofDatum_map_eq_error_iff.mp fails
    cases fault <;> cases same
  | _ => cases fault <;> cases fails

/-- Unless its end is missing, front matter fails as its block does. -/
theorem split_eq_error_iff [DataFormat] {text : List Char} {fault : Fault} (closed : fault ≠ .unclosed) :
    split text = .error fault ↔ ∃ block, block? text = some block ∧ ofBlock block = .error fault := by
  cases found : block? text with
  | none =>
    rcases split_of_no_block found with unclosed | ⟨front, success⟩
    · simp [unclosed, closed.symm]
    · simp [success]
  | some block =>
    obtain ⟨body, splits⟩ := split_of_block? found
    rw [splits]
    cases made : ofBlock block <;> simp [made]

/-- The faults of a decoder are those of its front matter, as far as it is about them. -/
theorem ofBlock_eq_ofDecoding_iff [DataFormat] {block : List Char} {fault : DataFormat.Fault} :
    ofBlock block = .error (.ofDecoding fault) ↔ DataFormat.decode block = .error fault := by
  unfold ofBlock
  cases decoded : DataFormat.decode block with
  | error other =>
    rw [Except.mapError_error, Except.error_bind, Except.error.injEq, Except.error.injEq]
    exact ⟨ofDecoding_injective, congrArg _⟩
  | ok value =>
    rw [Except.mapError_ok, Except.ok_bind]
    exact iff_of_false (ofDatum_ne_ofDecoding value fault) nofun

/-- An integer is too long for the text of a key. -/
theorem ofBlock_eq_number_iff [DataFormat] {block : List Char} {digits : Nat} :
    ofBlock block = .error (.number ⟨digits⟩) ↔
      ∃ entries, DataFormat.decode block = .ok (.map entries) ∧
        Datum.overlongAll? (entries.map (·.1)) = some digits := by
  unfold ofBlock
  cases decoded : DataFormat.decode block with
  | error other => cases other <;> simp [Fault.ofDecoding]
  | ok value =>
    rw [Except.mapError_ok, Except.ok_bind]
    cases value with
    | map entries => simp [ofDatum_map_eq_error_iff]
    | _ => simp [ofDatum]

/-- Reading the front matter of a text ends as the decoder does, if there is a block. -/
theorem split_eq_ofDecoding_iff [DataFormat] {text : List Char} {fault : DataFormat.Fault} :
    split text = .error (.ofDecoding fault) ↔
      ∃ block, block? text = some block ∧ DataFormat.decode block = .error fault := by
  have closed : Fault.ofDecoding fault ≠ .unclosed := by cases fault <;> nofun
  simp only [split_eq_error_iff closed, ofBlock_eq_ofDecoding_iff]

private theorem split_eq_number_iff [DataFormat] {text : List Char} {digits : Nat} :
    split text = .error (.number ⟨digits⟩) ↔
      ∃ block entries, block? text = some block ∧ DataFormat.decode block = .ok (.map entries) ∧
        Datum.overlongAll? (entries.map (·.1)) = some digits := by
  have closed : Fault.number ⟨digits⟩ ≠ .unclosed := nofun
  simp only [split_eq_error_iff closed, ofBlock_eq_number_iff, exists_and_left]

end FrontMatter

/-- The block of front matter of a text. -/
def textBlock? (text : String) : Option (List Char) :=
  FrontMatter.block? (Text.trim (Text.unixLines text.toList))

/-- A text holds an integer with too many digits where its integers are read or written: in a key of front matter,
among the names of required libraries, in what front matter says of units, or in the declarations of a unit. -/
inductive HasOverlong [DataFormat] (filename : Option String) (text : String) (digits : Nat) : Prop
  | key {block : List Char} {entries : List (Datum × Datum)} {key : Datum} (held : textBlock? text = some block)
      (loads : DataFormat.decode block = .ok (.map entries)) (listed : key ∈ entries.map (·.1))
      (long : key.overlong? = some digits)
  | required {front : FrontMatter} {value : Datum}
      (splits : FrontMatter.split (Text.trim (Text.unixLines text.toList)) = .ok front)
      (listed : value ∈ nameData (front.metadata.get? "require")) (long : value.overlong? = some digits)
  | described {front : FrontMatter} {parts : List Section} {value : Datum}
      (splits : FrontMatter.split (Text.trim (Text.unixLines text.toList)) = .ok front)
      (cut : textSections? filename front = some parts) (listed : value ∈ sectionsData front.metadata false parts)
      (long : value.overlong? = some digits)
  | declared {front : FrontMatter} {parts : List Section} {part : Section}
      (splits : FrontMatter.split (Text.trim (Text.unixLines text.toList)) = .ok front)
      (cut : textSections? filename front = some parts) (member : part ∈ parts)
      (plain : part.heading.isMethod = false) (long : DeclaresOverlong part.text digits)

private theorem HasOverlong.lt [DataFormat] {filename : Option String} {text : String} {digits : Nat}
    (overlong : HasOverlong filename text digits) : Number.maxIntDigits < digits := by
  cases overlong with
  | key _ _ _ long => exact Datum.lt_of_overlong? long
  | required _ _ long => exact Datum.lt_of_overlong? long
  | described _ _ _ long => exact Datum.lt_of_overlong? long
  | declared _ _ _ _ long =>
    obtain ⟨_, _, value, _, read⟩ := long
    exact lt_of_readValue read

/-! ## Sections that are read -/

private theorem worded_titleData {metadata : Metadata} {opened : Bool} {title : List Char} {calls : List Draft.Call}
    (success : unitCalls metadata opened title = .ok calls) : Worded (titleData metadata opened title) := by
  obtain ⟨kind, known, _, worded, _⟩ := unitCalls_eq_ok_iff.mp success
  refine worded_append.mpr ⟨?_, ?_⟩
  · split
    · next untitled =>
      rw [unitKind_of_untitled untitled] at known
      unfold declaredKind at known
      cases found : metadata.get? "type" with
      | none => simp
      | some declared =>
        rw [found] at known
        cases declared with
        | null => simp [Worded, Datum.overlong?]
        | _ =>
          obtain ⟨_, checked, _⟩ := Except.bind_eq_ok_iff.mp known
          exact checkWords_eq_ok_iff.mp (Except.mapError_eq_ok_iff.mp checked)
    · simp
  · rw [known]
    exact worded

private theorem worded_sectionsData {metadata : Metadata} {unit : Option String} {parts : List Section}
    {calls : List Draft.Call} (success : sectionsCalls metadata unit parts = .ok calls) :
    Worded (sectionsData metadata unit.isSome parts) := by
  induction parts generalizing unit calls with
  | nil => exact worded_nil
  | cons part rest ih =>
    obtain ⟨opening, inside, method, content, later, opens, _, follows, _⟩ :=
      sectionsCalls_cons_eq_ok_iff.mp success
    rw [sectionsData]
    rcases headingCalls_cases opens with ⟨first, _, _, made⟩ | ⟨other, rfl, _⟩
    · rw [if_pos first]
      exact worded_append.mpr ⟨worded_titleData made, ih follows⟩
    · rw [if_neg other]
      exact ih follows

private theorem readValue_of_declarationCalls {unit : String} {line value : List Char} {calls : List Draft.Call}
    (success : declarationCalls unit line = .ok calls)
    (found : (readDeclaration (Text.trim line)).value? = some value) : ∃ constant, readValue value = .ok constant := by
  have makes := declarationCalls_eq_ok_iff.mp success
  generalize readDeclaration (Text.trim line) = declaration at makes found
  cases makes with
  | nothing | unnamed | attributes => cases found
  | constant read | classVariable read =>
    cases found
    exact ⟨_, read⟩

private theorem not_declaresOverlong_of_textCalls {unit : String} {lines : List (List Char)}
    {calls : List Draft.Call}
    (success : textCalls unit none lines = .ok calls) (digits : Nat) : ¬DeclaresOverlong lines digits := by
  rintro ⟨line, member, value, found, long⟩
  rw [textCalls_none] at success
  obtain ⟨made, each, _⟩ := Except.bind_eq_ok_iff.mp success
  obtain ⟨_, declares⟩ := Except.exists_of_mapM each member
  obtain ⟨constant, read⟩ := readValue_of_declarationCalls declares found
  rw [long] at read
  cases read

private theorem not_declaresOverlong_of_sectionsCalls {metadata : Metadata} {unit : Option String}
    {parts : List Section}
    {calls : List Draft.Call} (success : sectionsCalls metadata unit parts = .ok calls)
    (levels : ∀ part ∈ parts, part.heading.level = 1 ∨ part.heading.level = 2 ∨ part.heading.level = 3) :
    ∀ part ∈ parts, part.heading.isMethod = false → ∀ digits, ¬DeclaresOverlong part.text digits := by
  induction parts generalizing unit calls with
  | nil => simp
  | cons part rest ih =>
    obtain ⟨opening, inside, method, content, later, opens, text, follows, _⟩ :=
      sectionsCalls_cons_eq_ok_iff.mp success
    rintro other (_ | ⟨_, member⟩) plain digits
    · have untitled : method = none := by
        rcases headingCalls_cases opens with ⟨_, _, untitled, _⟩ | ⟨inner, rfl, _⟩
        · exact untitled
        · obtain ⟨_, within⟩ := (headingCalls_within_iff inner).mp opens
          have titled := within.isMethod ((levels part List.mem_cons_self).resolve_left inner)
          rw [plain] at titled
          simpa using titled.symm
      subst untitled
      exact not_declaresOverlong_of_textCalls text digits
    · exact ih follows (fun other member => levels other (List.mem_cons_of_mem _ member)) other member plain digits

/-! ## Texts -/

inductive Refusable [DataFormat] (filename : Option String) (text : String) : ReadFault → Prop
  | ordinary {fault : ReadFault} (proper : fault.Ordinary) : Refusable filename text fault
  | frontMatter {fault : FrontMatter.Fault}
      (splits : FrontMatter.split (Text.trim (Text.unixLines text.toList)) = .error fault) :
      Refusable filename text (.frontMatter fault)
  | overlong {digits : Nat} (held : HasOverlong filename text digits) :
      Refusable filename text (.number ⟨digits⟩)

/-- A key that cannot be put into words holds an integer with too many digits. -/
theorem hasOverlong_of_split [DataFormat] (filename : Option String) {text : String} {fault : Number.TooManyDigits}
    (splits : FrontMatter.split (Text.trim (Text.unixLines text.toList)) = .error (.number fault)) :
    HasOverlong filename text fault.digits := by
  obtain ⟨block, entries, held, loads, found⟩ := FrontMatter.split_eq_number_iff.mp splits
  obtain ⟨key, listed, long⟩ := exists_of_overlongAll? found
  exact .key held loads listed long

/-- A text is read into a draft, or refused for a broken rule, for what its decoder raises, or for an integer
with too many digits. -/
theorem meets_readInto [DataFormat] (draft : Draft) (filename : Option String) (text : String) :
    Meets (fun _ => True) (Refusable filename text) (readInto draft filename text).result := by
  have ordinary (fault : ReadFault) (proper : fault.Ordinary) : Refusable filename text fault := .ordinary proper
  rw [readInto_result]
  split
  · exact .ordinary trivial
  cases splits : FrontMatter.split (Text.trim (Text.unixLines text.toList)) with
  | error fault => exact .frontMatter splits
  | ok front =>
    have requires : Foresees (Refusable filename text) (nameData (front.metadata.get? "require")) :=
      fun value listed digits long => .overlong (.required splits listed long)
    refine (meets_checkWords requires).bind fun _ _ => ?_
    cases cut : textSections? filename front with
    | none => exact .ordinary trivial
    | some parts =>
      have reads := @meets_readSections _ ordinary front.metadata parts (levels_of_textSections? cut)
        (fun part member plain digits long => .overlong (.declared splits cut member plain long))
        { draft := (FrontMatter.namesIn (front.metadata.get? "require")).foldl Draft.addRequire
            (draft.setMetadata front.metadata) }
        ⟨rfl, fun unit absent => by cases absent⟩
        (fun value listed digits long => .overlong (.described splits cut listed long)) [] rfl
        (fun opened => by cases opened)
      exact reads.bind fun _ _ => trivial

private theorem worded_required [DataFormat] {filename : Option String} {text : String} {calls : List Draft.Call}
    {front : FrontMatter} (success : callsOf filename text = .ok calls)
    (splits : FrontMatter.split (Text.trim (Text.unixLines text.toList)) = .ok front) :
    Worded (nameData (front.metadata.get? "require")) := by
  obtain ⟨_, front, divides, worded, _⟩ := callsOf_eq_ok_iff.mp success
  cases splits.symm.trans divides
  exact worded

/-- A text with such an integer is not read. -/
theorem HasOverlong.unread [DataFormat] {filename : Option String} {text : String} {digits : Nat}
    (overlong : HasOverlong filename text digits) (document : Document) :
    (read filename text).result ≠ .ok document := by
  intro success
  obtain ⟨calls, draft, made, _⟩ := read_eq_ok_iff.mp success
  obtain ⟨front, parts, rest, splits, cut, _, follows, _⟩ := callsOf_cases made
  have written {values : List Datum} (worded : Worded values) {value : Datum} (listed : value ∈ values)
      (long : value.overlong? = some digits) : False := by
    rw [worded value listed] at long
    cases long
  cases overlong with
  | @key block entries key held loads listed long =>
    cases found : Datum.overlongAll? (entries.map (·.1)) with
    | none => exact written (overlongAll?_eq_none_iff.mp found) listed long
    | some most =>
      have refused := FrontMatter.split_eq_number_iff.mpr ⟨block, entries, held, loads, found⟩
      cases splits.symm.trans refused
  | required divides listed long =>
    cases splits.symm.trans divides
    exact written (worded_required made splits) listed long
  | described divides slices listed long =>
    cases splits.symm.trans divides
    cases cut.symm.trans slices
    exact written (worded_sectionsData follows) listed long
  | declared divides slices member plain long =>
    cases splits.symm.trans divides
    cases cut.symm.trans slices
    exact not_declaresOverlong_of_sectionsCalls follows (levels_of_textSections? cut) _ member plain digits long

/-- What a text was read into can be built. -/
theorem build_of_readInto [DataFormat] {own filename : Option String} {text : String} {draft : Draft}
    (success : (readInto (Draft.empty own) filename text).result = .ok draft) :
    draft.build.2 = .ok draft.document := by
  obtain ⟨calls, made, run⟩ := readInto_eq_ok_iff.mp success
  have holds := run.holds (Draft.holds_empty own) fun call member => (callsOf_complete made call member).1
  exact holds.build_eq

/-- The outcome of building what a text was read into is the outcome of the reading. -/
theorem result_build [DataFormat] (own filename : Option String) (text : String) :
    (readInto (Draft.empty own) filename text >>= fun draft => call draft.build.2).result =
      (readInto (Draft.empty own) filename text).result.map Draft.document := by
  rw [Outcome.result_bind]
  cases reads : (readInto (Draft.empty own) filename text).result with
  | error fault => rfl
  | ok draft =>
    rw [Except.ok_bind, call, Outcome.result_ofExcept, build_of_readInto reads]
    rfl

private theorem refusable_of_readInto [DataFormat] {draft : Draft} {filename : Option String} {text : String}
    {fault : ReadFault} (fails : (readInto draft filename text).result = .error fault) : Refusable filename text fault := by
  have meets := meets_readInto draft filename text
  rwa [fails] at meets

/-- A text that is not read is refused before anything is built. -/
theorem refusable_of_read [DataFormat] {filename : Option String} {text : String} {fault : ReadFault}
    (fails : (read filename text).result = .error fault) : Refusable filename text fault := by
  have built : (read filename text).result = _ := result_build filename filename text
  rw [built] at fails
  cases reads : (readInto (Draft.empty filename) filename text).result with
  | ok draft =>
    rw [reads] at fails
    cases fails
  | error other =>
    rw [reads] at fails
    cases fails
    exact refusable_of_readInto reads

/-- Reading never asks for a unit that the draft does not hold, and if it comes to its end, the draft can be
built: a text that is refused is refused before. -/
theorem readInto_build [DataFormat] (own filename : Option String) (text : String) :
    (∀ unit, (readInto (Draft.empty own) filename text).result ≠ .error (.refused (.unknownUnit unit))) ∧
      (readInto (Draft.empty own) filename text >>= fun draft => call draft.build.2).result =
        (readInto (Draft.empty own) filename text).result.map Draft.document := by
  refine ⟨fun unit fails => ?_, result_build own filename text⟩
  cases refusable_of_readInto fails with
  | ordinary proper => exact proper

/-- The kinds of the faults that a text can be refused for: those of the notation and its front matter, that of
a value where an integer has too many digits, and what the decoder of front matter raises. -/
theorem Refusable.kind [DataFormat] {filename : Option String} {text : String} {fault : ReadFault}
    (refusable : Refusable filename text fault) :
    Failure.kindOfReading? fault = some .validation ∨ Failure.kindOfReading? fault = some .metadata ∨
      (∃ className, fault = .frontMatter (.raised className)) ∨
        Failure.kindOfReading? fault = some .value ∧ ∃ digits, Number.maxIntDigits < digits ∧
          HasOverlong filename text digits ∧
            (fault = .number ⟨digits⟩ ∨ fault = .frontMatter (.number ⟨digits⟩)) := by
  cases refusable with
  | frontMatter splits =>
    rename_i flaw
    cases flaw with
    | raised className => exact .inr (.inr (.inl ⟨className, rfl⟩))
    | number many =>
      have held := hasOverlong_of_split filename splits
      exact .inr (.inr (.inr ⟨rfl, many.digits, held.lt, held, .inr rfl⟩))
    | _ => exact .inr (.inl rfl)
  | overlong held => exact .inr (.inr (.inr ⟨rfl, _, held.lt, held, .inl rfl⟩))
  | ordinary proper =>
    cases fault with
    | frontMatter flaw => exact proper.elim
    | parameter flaw => exact proper.elim
    | number many => exact proper.elim
    | refused refusal =>
      cases refusal with
      | noMetadata | builtTwice => exact proper.elim
      | _ => exact .inl rfl
    | _ => exact .inl rfl

/-- A text ends in a fault of its front matter exactly if splitting it off does. -/
theorem read_eq_frontMatter_iff [DataFormat] {filename : Option String} {text : String}
    {fault : FrontMatter.Fault} :
    (read filename text).result = .error (.frontMatter fault) ↔
      FrontMatter.split (Text.trim (Text.unixLines text.toList)) = .error fault := by
  constructor
  · intro fails
    cases refusable_of_read fails with
    | frontMatter splits => exact splits
    | ordinary proper => exact proper.elim
  · intro splits
    have filled : (Text.trim (Text.unixLines text.toList)).isEmpty = false := by
      cases empty : Text.trim (Text.unixLines text.toList) with
      | nil =>
        have none_opens : FrontMatter.split [] = .ok ⟨[], [], false⟩ := rfl
        rw [empty, none_opens] at splits
        cases splits
      | cons _ _ => rfl
    have built : (read filename text).result = _ := result_build filename filename text
    rw [built, readInto_result, filled, splits]
    rfl

/-- Front matter with a day that no month has. -/
def undatedText : String := "---\nx: 2024-13-45\n---\n# A\n"

end Literate

end LiterateRuby
