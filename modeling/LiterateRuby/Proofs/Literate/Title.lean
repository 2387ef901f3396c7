import LiterateRuby.Literate.Reader
import LiterateRuby.Literate.Writer
import LiterateRuby.Proofs.Literate.Splitting
import LiterateRuby.Proofs.Outcome
import LiterateRuby.Proofs.RubyUnit
import LiterateRuby.Proofs.Text.Lines

/-! # Titles are read as they are written

The title of a method is its name and its parameters. `readParameter_text` reads one parameter back,
`readTitle_of_texts` finds the parameters between the parentheses, and `readTitle_title` reads the whole
title back. A method of a singleton block has the title of an instance method: the block is not part of it.
-/

namespace LiterateRuby.Literate

open Text (isWord isBlank Trimmed)

/-! ## Parameters -/

/-- A default that is found again in a list: a trimmed text that closes what it opens and has no comma outside
brackets and quotes. -/
structure ClosedDefault (text : String) : Prop where
  given : text ≠ ""
  trimmed : Trimmed text.toList
  whole : Whole {} text.toList

instance (text : String) : Decidable (ClosedDefault text) :=
  decidable_of_iff (text ≠ "" ∧ Trimmed text.toList ∧ Whole {} text.toList)
    ⟨fun ⟨given, trimmed, whole⟩ => ⟨given, trimmed, whole⟩, fun closed => ⟨closed.given, closed.trimmed, closed.whole⟩⟩

/-- A parameter that is found again in a list. -/
def ClosedParameter : Parameter → Prop
  | .required name | .requiredKeyword name => name ≠ "" ∧ WordText name
  | .optional name default | .optionalKeyword name default =>
    (name ≠ "" ∧ WordText name) ∧ ClosedDefault default
  | .rest name | .keywordRest name | .block name => WordText name
  | .forward => True

instance : DecidablePred ClosedParameter
  | .required name | .requiredKeyword name => inferInstanceAs (Decidable (name ≠ "" ∧ WordText name))
  | .optional name default | .optionalKeyword name default =>
    inferInstanceAs (Decidable ((name ≠ "" ∧ WordText name) ∧ ClosedDefault default))
  | .rest name | .keywordRest name | .block name => inferInstanceAs (Decidable (WordText name))
  | .forward => inferInstanceAs (Decidable True)

/-- A default that a title can hold: one trimmed line that closes what it opens and has no comma
outside brackets and quotes. -/
structure PlainDefault (text : String) : Prop where
  given : text ≠ ""
  trimmed : Trimmed text.toList
  whole : Whole {} text.toList
  unbroken : Text.Unbroken text.toList

/-- A parameter that a title can hold. -/
def PlainParameter : Parameter → Prop
  | .required name | .requiredKeyword name => name ≠ "" ∧ WordText name
  | .optional name default | .optionalKeyword name default =>
    (name ≠ "" ∧ WordText name) ∧ PlainDefault default
  | .rest name | .keywordRest name | .block name => WordText name
  | .forward => True

private theorem PlainParameter.closed {parameter : Parameter} (plain : PlainParameter parameter) :
    ClosedParameter parameter := by
  cases parameter with
  | optional name default => exact ⟨plain.1, plain.2.given, plain.2.trimmed, plain.2.whole⟩
  | optionalKeyword name default => exact ⟨plain.1, plain.2.given, plain.2.trimmed, plain.2.whole⟩
  | _ => exact plain

/-- The characters of a parameter as it stands in a definition. -/
def characters : Parameter → List Char
  | .required name => name.toList
  | .optional name default => name.toList ++ ([' ', '=', ' '] ++ default.toList)
  | .rest name => '*' :: name.toList
  | .requiredKeyword name => name.toList ++ [':']
  | .optionalKeyword name default => name.toList ++ ([':', ' '] ++ default.toList)
  | .keywordRest name => '*' :: '*' :: name.toList
  | .block name => '&' :: name.toList
  | .forward => ['.', '.', '.']

theorem toList_text (parameter : Parameter) : parameter.text.toList = characters parameter := by
  cases parameter <;> simp [Parameter.text, characters]

theorem toList_ne_nil {s : String} (given : s ≠ "") : s.toList ≠ [] := by
  intro empty
  exact given (String.toList_eq_nil_iff.mp empty)

theorem ofList_ne_empty {cs : List Char} (filled : cs ≠ []) : String.ofList cs ≠ "" := by
  rwa [Ne, ← String.toList_eq_nil_iff, String.toList_ofList]

private theorem trimmedText_eq {s : String} (trimmed : Trimmed s.toList) : trimmedText s.toList = s := by
  rw [trimmedText, trimmed.trim_eq, String.ofList_toList]

private theorem trimmedText_space {text : String} (trimmed : Trimmed text.toList) :
    trimmedText (' ' :: text.toList) = text := by
  have blank := @Text.trim_append_left [' '] (by decide) text.toList
  rw [trimmedText, ← List.singleton_append, blank, trimmed.trim_eq, String.ofList_toList]

theorem takeWhile_word {name : String} (word : WordText name) {rest : List Char}
    (stops : ∀ c, rest.head? = some c → isWord c = false) :
    (name.toList ++ rest).takeWhile isWord = name.toList ∧
      (name.toList ++ rest).dropWhile isWord = rest := by
  rw [List.takeWhile_append_of_pos word, List.dropWhile_append_of_pos word]
  cases rest with
  | nil => simp
  | cons c more =>
    have stop := stops c rfl
    rw [List.takeWhile_cons_of_neg (by simp [stop]), List.dropWhile_cons_of_neg (by simp [stop])]
    simp

/-- A word stops before a sign. -/
theorem stops_of_head {sign : Char} {rest : List Char} (other : isWord sign = false) :
    ∀ c, (sign :: rest).head? = some c → isWord c = false := by
  rintro c ⟨⟩
  exact other

/-- A text that starts with a word is none of the marked forms. -/
theorem readParameter_of_word {name : String} (given : name ≠ "") (word : WordText name)
    (rest : List Char) :
    readParameter (name.toList ++ rest) =
      match optionalParts? (name.toList ++ rest), keywordParts? (name.toList ++ rest) with
      | some (name, default), _ =>
        Parameter.ofParts .optional (String.ofList name) (some (trimmedText default))
      | none, some (name, default) =>
        if Text.allBlank default then Parameter.ofParts .requiredKeyword (String.ofList name) none
        else Parameter.ofParts .optionalKeyword (String.ofList name) (some (trimmedText default))
      | none, none => Parameter.ofParts .required (String.ofList (name.toList ++ rest)) none := by
  obtain ⟨c, more, same⟩ := List.exists_cons_of_ne_nil (toList_ne_nil given)
  have first : isWord c = true := word c (by rw [same]; exact List.mem_cons_self)
  have dot := ne_of_isWord first (d := '.') (by decide +kernel)
  have mark := ne_of_isWord first (d := '&') (by decide +kernel)
  have star := ne_of_isWord first (d := '*') (by decide +kernel)
  rw [same, List.cons_append]
  unfold readParameter
  split
  · next heads => exact absurd (List.cons.inj heads).1 dot
  · next heads => exact absurd (List.cons.inj heads).1 mark
  · next heads => exact absurd (List.cons.inj heads).1 star
  · next heads => exact absurd (List.cons.inj heads).1 star
  · rfl

private theorem optionalParts?_of_word {name : String} (given : name ≠ "") (word : WordText name)
    {rest : List Char} (stops : ∀ c, rest.head? = some c → isWord c = false) :
    optionalParts? (name.toList ++ rest) =
      match Text.trimStart rest with
      | '=' :: first :: rest => some (name.toList, first :: rest)
      | _ => none := by
  obtain ⟨taken, dropped⟩ := takeWhile_word word stops
  have filled : name.toList.isEmpty = false := by simpa using toList_ne_nil given
  unfold optionalParts?
  rw [taken, dropped]
  dsimp only
  rw [filled]
  rfl

private theorem keywordParts?_of_word {name : String} (word : WordText name) :
    keywordParts? name.toList = none := by
  obtain ⟨taken, dropped⟩ := @takeWhile_word name word [] (by simp)
  rw [List.append_nil] at taken dropped
  unfold keywordParts?
  rw [dropped]

private theorem keywordParts?_of_colon {name : String} (given : name ≠ "") (word : WordText name)
    {rest : List Char} (single : rest.head? ≠ some ':') :
    keywordParts? (name.toList ++ ':' :: rest) = some (name.toList, rest) := by
  obtain ⟨taken, dropped⟩ := @takeWhile_word name word (':' :: rest) (stops_of_head (by decide +kernel))
  have filled : name.toList.isEmpty = false := by simpa using toList_ne_nil given
  unfold keywordParts?
  rw [taken, dropped]
  simp [filled, single]

/-- The parts of a text with a default: a name, blanks, a sign and the rest. -/
theorem optionalParts?_eq_some {token name rest : List Char} (parts : optionalParts? token = some (name, rest)) :
    name ≠ [] ∧ (∀ c ∈ name, isWord c = true) ∧
      ∃ gap, Text.allBlank gap = true ∧ token = name ++ (gap ++ '=' :: rest) ∧ rest ≠ [] := by
  unfold optionalParts? at parts
  dsimp only at parts
  split at parts
  · next first more sign =>
    split at parts
    · cases parts
    · next given =>
      cases parts
      refine ⟨by simpa using given, fun c member => List.mem_takeWhile_imp member,
        (token.dropWhile isWord).takeWhile isBlank,
        List.all_eq_true.mpr fun c member => List.mem_takeWhile_imp member, ?_, by simp⟩
      rw [← sign, Text.trimStart, List.takeWhile_append_dropWhile, List.takeWhile_append_dropWhile]
  · cases parts

/-- The parts of a text with a colon: a name and the rest. -/
theorem keywordParts?_eq_some {token name rest : List Char} (parts : keywordParts? token = some (name, rest)) :
    name ≠ [] ∧ (∀ c ∈ name, isWord c = true) ∧ token = name ++ ':' :: rest := by
  unfold keywordParts? at parts
  dsimp only at parts
  split at parts
  · next more sign =>
    split at parts
    · cases parts
    · next given =>
      cases parts
      rw [Bool.or_eq_true, not_or] at given
      refine ⟨by simpa using given.1, fun c member => List.mem_takeWhile_imp member, ?_⟩
      rw [← sign, List.takeWhile_append_dropWhile]
  · cases parts

/-- What a text says as a parameter, by the form of the text. -/
inductive SaysParameter : List Char → Parameter → Prop
  | forward : SaysParameter ['.', '.', '.'] .forward
  | block (name : List Char) : SaysParameter ('&' :: name) (.block (trimmedText name))
  | keywordRest (name : List Char) : SaysParameter ('*' :: '*' :: name) (.keywordRest (trimmedText name))
  | rest (name : List Char) : SaysParameter ('*' :: name) (.rest (trimmedText name))
  | optional {name gap default : List Char} (named : name ≠ []) (word : ∀ c ∈ name, isWord c = true)
    (blank : Text.allBlank gap = true) (given : trimmedText default ≠ "") :
    SaysParameter (name ++ (gap ++ '=' :: default)) (.optional (String.ofList name) (trimmedText default))
  | requiredKeyword {name gap : List Char} (named : name ≠ []) (word : ∀ c ∈ name, isWord c = true)
    (blank : Text.allBlank gap = true) : SaysParameter (name ++ ':' :: gap) (.requiredKeyword (String.ofList name))
  | optionalKeyword {name default : List Char} (named : name ≠ []) (word : ∀ c ∈ name, isWord c = true)
    (given : trimmedText default ≠ "") :
    SaysParameter (name ++ ':' :: default) (.optionalKeyword (String.ofList name) (trimmedText default))
  | required {token : List Char} (given : token ≠ []) : SaysParameter token (.required (String.ofList token))

theorem says_of_readParameter {token : List Char} {parameter : Parameter}
    (read : readParameter token = .ok parameter) : SaysParameter token parameter := by
  unfold readParameter at read
  split at read
  · cases read
    exact .forward
  · cases read
    exact .block _
  · cases read
    exact .keywordRest _
  · cases read
    exact .rest _
  · split at read
    · next name default _ _ parts =>
      obtain ⟨named, word, gap, blank, rfl, _⟩ := optionalParts?_eq_some parts
      simp only [Parameter.ofParts] at read
      split_ifs at read with _ _ written
      cases read
      exact .optional named word blank written
    · next name default _ parts =>
      obtain ⟨named, word, rfl⟩ := keywordParts?_eq_some parts
      simp only [Parameter.ofParts] at read
      split_ifs at read with blank _ _ _ _ written
      · cases read
        exact .requiredKeyword named word blank
      · cases read
        exact .optionalKeyword named word written
    · simp only [Parameter.ofParts] at read
      split_ifs at read with unnamed
      cases read
      refine .required ?_
      rintro rfl
      exact unnamed rfl

/-- A text that does not end with a blank denotes a parameter. -/
theorem exists_readParameter {token : List Char} (filled : token ≠ [])
    (shown : ∀ c, token.getLast? = some c → isBlank c = false) :
    ∃ parameter, readParameter token = .ok parameter := by
  unfold readParameter
  split
  · exact ⟨_, rfl⟩
  · exact ⟨_, rfl⟩
  · exact ⟨_, rfl⟩
  · exact ⟨_, rfl⟩
  · cases optional : optionalParts? token with
    | some parts =>
      obtain ⟨named, _, gap, _, whole, given⟩ := optionalParts?_eq_some optional
      have ends : parts.2 <:+ token := ⟨parts.1 ++ (gap ++ ['=']), by simp [whole]⟩
      have written : trimmedText parts.2 ≠ "" := ofList_ne_empty (Text.trim_ne_nil_of_suffix given ends shown)
      exact ⟨.optional (String.ofList parts.1) (trimmedText parts.2),
        by simp [Parameter.ofParts, ofList_ne_empty named, written]⟩
    | none =>
      cases keyword : keywordParts? token with
      | some parts =>
        have named := ofList_ne_empty (keywordParts?_eq_some keyword).1
        by_cases blank : Text.allBlank parts.2 = true
        · exact ⟨.requiredKeyword (String.ofList parts.1), by simp [Parameter.ofParts, named, blank]⟩
        · obtain ⟨c, member, seen⟩ : ∃ c ∈ parts.2, isBlank c = false := by
            simpa [Text.allBlank] using blank
          have written : trimmedText parts.2 ≠ "" := ofList_ne_empty (Text.trim_ne_nil member seen)
          exact ⟨.optionalKeyword (String.ofList parts.1) (trimmedText parts.2),
            by simp [Parameter.ofParts, named, blank, written]⟩
      | none => exact ⟨.required (String.ofList token), by simp [Parameter.ofParts, ofList_ne_empty filled]⟩

/-- What a parameter that was read is known to be: whatever its form says is trimmed, and a name before a sign is a
word. A required parameter is any text that has no other form. -/
def Settled : Parameter → Prop
  | .required name => name ≠ "" ∧ Trimmed name.toList ∧ readParameter name.toList = .ok (.required name)
  | .optional name default | .optionalKeyword name default =>
    (name ≠ "" ∧ WordText name) ∧ default ≠ "" ∧ Trimmed default.toList
  | .rest name | .keywordRest name | .block name => Trimmed name.toList
  | .requiredKeyword name => name ≠ "" ∧ WordText name
  | .forward => True

/-- A parameter whose text does not begin with more stars than its form has. -/
def Starless (parameter : Parameter) : Prop := ∀ name, parameter = .rest name → name.toList.head? ≠ some '*'

/-- A parameter that was read is read again, unless its name adds a star to the one before it. -/
theorem readParameter_of_settled {parameter : Parameter} (settled : Settled parameter) (starless : Starless parameter) :
    readParameter parameter.text.toList = .ok parameter := by
  rw [toList_text]
  cases parameter with
  | required name => exact settled.2.2
  | optional name default =>
    obtain ⟨⟨given, word⟩, held, trimmed⟩ := settled
    have read := readParameter_of_word given word (' ' :: '=' :: ' ' :: default.toList)
    have sign : Text.trimStart (' ' :: '=' :: ' ' :: default.toList) = '=' :: ' ' :: default.toList := rfl
    rw [optionalParts?_of_word given word (stops_of_head (by decide +kernel)), sign] at read
    refine read.trans ?_
    simp [trimmedText_space trimmed, Parameter.ofParts, given, held]
  | rest name =>
    have bare := trimmedText_eq settled
    unfold readParameter characters
    split
    · next heads => cases heads
    · next heads => cases heads
    · next other heads =>
      have star : name.toList.head? = some '*' := by rw [(List.cons.inj heads).2, List.head?_cons]
      exact absurd star (starless name rfl)
    · next other _ heads =>
      rw [← (List.cons.inj heads).2, bare]
    · next plainForm =>
      exact absurd rfl (plainForm name.toList)
  | requiredKeyword name =>
    obtain ⟨given, word⟩ := settled
    have read := readParameter_of_word given word [':']
    rw [optionalParts?_of_word given word (stops_of_head (by decide +kernel)),
      keywordParts?_of_colon given word (by simp)] at read
    refine read.trans ?_
    have sign : Text.trimStart [':'] = [':'] := rfl
    simp [sign, Text.allBlank, Parameter.ofParts, given]
  | optionalKeyword name default =>
    obtain ⟨⟨given, word⟩, held, trimmed⟩ := settled
    have read := readParameter_of_word given word (':' :: ' ' :: default.toList)
    rw [optionalParts?_of_word given word (stops_of_head (by decide +kernel)),
      keywordParts?_of_colon given word (by simp)] at read
    have content := trimmed.not_allBlank (toList_ne_nil held)
    have sign : Text.trimStart (':' :: ' ' :: default.toList) = ':' :: ' ' :: default.toList := rfl
    have blank : Text.allBlank (' ' :: default.toList) = false := by
      simpa [Text.allBlank] using fun _ => by simpa [Text.allBlank] using content
    refine read.trans ?_
    simp [sign, blank, trimmedText_space trimmed, Parameter.ofParts, given, held]
  | keywordRest name => rw [characters, readParameter, trimmedText_eq settled]
  | block name => rw [characters, readParameter, trimmedText_eq settled]
  | forward => rfl

theorem trimmed_marked (mark : Char) (shown : isBlank mark = false) {name : String} (trimmed : Trimmed name.toList) :
    Trimmed (mark :: name.toList) := by
  have first : Trimmed [mark] := by
    refine ⟨?_, ?_⟩
    · rintro c ⟨⟩
      exact shown
    · rintro c ⟨⟩
      exact shown
  by_cases given : name = ""
  · simpa [given] using first
  · exact first.around trimmed (by simp) (toList_ne_nil given) []

/-- What is written for a parameter that was read is trimmed and not empty. -/
theorem Settled.text {parameter : Parameter} (settled : Settled parameter) :
    parameter.text.toList ≠ [] ∧ Trimmed parameter.text.toList := by
  rw [toList_text]
  cases parameter with
  | required name => exact ⟨toList_ne_nil settled.1, settled.2.1⟩
  | optional name default | optionalKeyword name default =>
    obtain ⟨⟨given, word⟩, held, trimmed⟩ := settled
    exact ⟨by simp [characters], word.trimmed.around trimmed (toList_ne_nil given) (toList_ne_nil held) _⟩
  | rest name => exact ⟨by simp [characters], trimmed_marked '*' (by decide) settled⟩
  | requiredKeyword name =>
    obtain ⟨given, word⟩ := settled
    have sign : Trimmed [':'] := by
      refine ⟨?_, ?_⟩ <;> rintro c ⟨⟩ <;> decide
    exact ⟨by simp [characters], word.trimmed.around sign (toList_ne_nil given) (by simp) []⟩
  | keywordRest name =>
    have sign : Trimmed ['*'] := by
      refine ⟨?_, ?_⟩ <;> rintro c ⟨⟩ <;> decide
    exact ⟨by simp [characters], sign.around (trimmed_marked '*' (by decide) settled) (by simp) (by simp) []⟩
  | block name => exact ⟨by simp [characters], trimmed_marked '&' (by decide) settled⟩
  | forward =>
    refine ⟨by simp [characters], ⟨?_, ?_⟩⟩
    · rintro c ⟨⟩
      decide
    · rintro c ⟨⟩
      decide

private theorem readParameter_of_name {name : String} (given : name ≠ "") (word : WordText name) :
    readParameter name.toList = .ok (.required name) := by
  have read := readParameter_of_word given word []
  rw [optionalParts?_of_word given word (by simp), List.append_nil, keywordParts?_of_word word] at read
  simpa [Text.trimStart, Parameter.ofParts, given] using read

private theorem ClosedParameter.settled {parameter : Parameter} (closed : ClosedParameter parameter) :
    Settled parameter := by
  cases parameter with
  | required name => exact ⟨closed.1, closed.2.trimmed, readParameter_of_name closed.1 closed.2⟩
  | optional name default => exact ⟨closed.1, closed.2.given, closed.2.trimmed⟩
  | optionalKeyword name default => exact ⟨closed.1, closed.2.given, closed.2.trimmed⟩
  | requiredKeyword name => exact closed
  | rest name => exact closed.trimmed
  | keywordRest name => exact closed.trimmed
  | block name => exact closed.trimmed
  | forward => trivial

private theorem ClosedParameter.starless {parameter : Parameter} (closed : ClosedParameter parameter) :
    Starless parameter := by
  rintro name rfl star
  have word : isWord '*' = true := closed '*' (List.mem_of_head? star)
  exact absurd word (by decide +kernel)

/-- A parameter is read as it is written. -/
theorem readParameter_text {parameter : Parameter} (closed : ClosedParameter parameter) :
    readParameter parameter.text.toList = .ok parameter :=
  readParameter_of_settled closed.settled closed.starless

theorem mapM_readParameter_iff {parameters : List Parameter} :
    (parameters.map (·.text.toList)).mapM readParameter = .ok parameters ↔
      ∀ parameter ∈ parameters, readParameter parameter.text.toList = .ok parameter := by
  rw [Except.mapM_eq_ok_iff, List.forall₂_map_left_iff, List.forall₂_same]

/-! ## Titles -/

/-- A method that a title can hold. -/
structure PlainTitle (method : Method) : Prop where
  sound : method.flaw? = none
  bare : ∀ c ∈ method.name.toList, isBlank c = false ∧ c ≠ '('
  direct : Text.after? "self.".toList method.name.toList = none
  parameters : ∀ parameter ∈ method.parameters, PlainParameter parameter

/-- A method whose title is read as it is written: its name is trimmed and has no opening parenthesis, a name has a dot
exactly on another object, and this object is not `self`. -/
structure ClosedTitle (method : Method) : Prop where
  named : method.name ≠ ""
  trimmed : Trimmed method.name.toList
  unopened : '(' ∉ method.name.toList
  receiver : Method.isDotted method.name = true ↔ method.binding = .onReceiver
  direct : method.binding = .onReceiver → Text.after? "self.".toList method.name.toList = none
  parameters : ∀ parameter ∈ method.parameters, ClosedParameter parameter

private theorem PlainTitle.closed {method : Method} (plain : PlainTitle method) : ClosedTitle method := by
  obtain ⟨named, receiver, -⟩ := Method.flaw?_eq_none_iff.mp plain.sound
  refine ⟨named, Text.trimmed_of_shown fun c member => (plain.bare c member).1,
    fun opening => (plain.bare _ opening).2 rfl, receiver, fun _ => plain.direct, fun parameter member => ?_⟩
  exact (plain.parameters parameter member).closed

/-- The binding that a title gives: a singleton block is not part of it. -/
def titledBinding (binding : Binding) : Binding :=
  if binding = .inSingleton then .onInstance else binding

private theorem ClosedDefault.whole_after {default name : String} (held : ClosedDefault default)
    (word : WordText name)
    {sign : List Char} (neutral : ∀ c ∈ sign, Neutral c) :
    Whole {} (name.toList ++ (sign ++ default.toList)) :=
  Whole.append (fun c member => neutral_of_isWord (word c member)) (Whole.append neutral held.whole)

theorem neutral_space : Neutral ' ' := ⟨by decide, by decide, by decide, rfl⟩

theorem neutral_equals : Neutral '=' := ⟨by decide, by decide, by decide, rfl⟩

theorem neutral_colon : Neutral ':' := ⟨by decide, by decide, by decide, rfl⟩

theorem neutral_star : Neutral '*' := ⟨by decide, by decide, by decide, rfl⟩

theorem neutral_mark : Neutral '&' := ⟨by decide, by decide, by decide, rfl⟩

private theorem neutral_dot : Neutral '.' := ⟨by decide, by decide, by decide, rfl⟩

/-- What is written for a parameter is one piece of a list. -/
theorem ClosedParameter.whole_text {parameter : Parameter} (closed : ClosedParameter parameter) :
    Whole {} parameter.text.toList := by
  rw [toList_text]
  cases parameter with
  | required name => exact closed.2.whole
  | optional name default =>
    obtain ⟨⟨given, word⟩, held⟩ := closed
    exact held.whole_after word (by simp [neutral_space, neutral_equals])
  | rest name =>
    have sign : ∀ c ∈ ['*'], Neutral c := by simp [neutral_star]
    exact Whole.append sign closed.whole
  | requiredKeyword name =>
    obtain ⟨given, word⟩ := closed
    have sign : Whole {} [':'] := whole_of_neutral (by simp [neutral_colon])
    exact Whole.append (fun c member => neutral_of_isWord (word c member)) sign
  | optionalKeyword name default =>
    obtain ⟨⟨given, word⟩, held⟩ := closed
    exact held.whole_after word (by simp [neutral_space, neutral_colon])
  | keywordRest name =>
    have sign : ∀ c ∈ ['*', '*'], Neutral c := by simp [neutral_star]
    exact Whole.append sign closed.whole
  | block name =>
    have sign : ∀ c ∈ ['&'], Neutral c := by simp [neutral_mark]
    exact Whole.append sign closed.whole
  | forward => exact whole_of_neutral (by simp [characters, neutral_dot])

private theorem parenthesized?_of_bare {name : List Char} (bare : '(' ∉ name) :
    parenthesized? name = none := by
  have passed : name.dropWhile (· != '(') = [] := by
    apply List.dropWhile_eq_nil_iff.mpr
    intro c member
    simpa using fun same : c = '(' => bare (same ▸ member)
  rw [parenthesized?, passed]

private theorem parenthesized?_of_list {name : List Char} (bare : '(' ∉ name) (inner : List Char) :
    parenthesized? (name ++ '(' :: (inner ++ [')'])) = some inner := by
  have passed : (name ++ '(' :: (inner ++ [')'])).dropWhile (· != '(') = '(' :: (inner ++ [')']) := by
    rw [List.dropWhile_append_of_pos]
    · simp
    · intro c member
      simpa using fun same : c = '(' => bare (same ▸ member)
  rw [parenthesized?, passed]
  simp

private theorem takeWhile_of_bare {name : List Char} (bare : '(' ∉ name) {rest : List Char}
    (ends : rest = [] ∨ rest.head? = some '(') : (name ++ rest).takeWhile (· != '(') = name := by
  rw [List.takeWhile_append_of_pos]
  · rcases ends with rfl | starts
    · simp
    · obtain ⟨more, rfl⟩ := List.head?_eq_some_iff.mp starts
      simp
  · intro c member
    simpa using fun same : c = '(' => bare (same ▸ member)

theorem bindingOf_definedName {method : Method} (closed : ClosedTitle method) :
    bindingOf (Render.definedName method).toList = (titledBinding method.binding, method.name.toList) := by
  -- Only a name on another object has a dot, so no other name can begin with `self.` either.
  have direct (given : method.binding ≠ .onSelf) : Text.after? "self.".toList method.name.toList = none := by
    by_cases receiver : method.binding = .onReceiver
    · exact closed.direct receiver
    · refine Option.eq_none_iff_forall_ne_some.mpr fun bare found => receiver (closed.receiver.mp ?_)
      rw [Method.isDotted, Text.after?_eq_some_iff.mp found]
      simp
  have dotted := closed.receiver
  simp only [Method.isDotted] at dotted
  unfold bindingOf Render.definedName
  cases binding : method.binding with
  | onSelf =>
    have written : ("self." ++ method.name).toList = "self.".toList ++ method.name.toList := by simp
    rw [if_pos rfl, written, Text.after?_append]
    rfl
  | onReceiver =>
    rw [if_neg (by decide), direct (by simp [binding]), dotted.mpr binding]
    rfl
  | onInstance =>
    have undotted := Bool.eq_false_iff.mpr fun dot => absurd (dotted.mp dot) (by simp [binding])
    rw [if_neg (by decide), direct (by simp [binding]), undotted]
    rfl
  | inSingleton =>
    have undotted := Bool.eq_false_iff.mpr fun dot => absurd (dotted.mp dot) (by simp [binding])
    rw [if_neg (by decide), direct (by simp [binding]), undotted]
    rfl

/-- A method that is named and bound as the name in a title says is defined by this name. -/
theorem definedName_of_bindingOf {name : List Char} {method : Method}
    (binding : (bindingOf name).1 = titledBinding method.binding)
    (named : String.ofList (bindingOf name).2 = method.name) : (Render.definedName method).toList = name := by
  unfold bindingOf at binding named
  unfold Render.definedName
  split at binding
  · next bare after =>
    rw [after] at named
    have self : method.binding = .onSelf := by
      cases own : method.binding <;> simp [own, titledBinding] at binding
      rfl
    rw [if_pos self, ← named, Text.after?_eq_some_iff.mp after]
    simp
  · next absent =>
    rw [absent] at named
    have other : method.binding ≠ .onSelf := by
      intro own
      rw [own] at binding
      dsimp only at binding
      split at binding <;> cases binding
    rw [if_neg other, ← named, String.toList_ofList]

theorem trimmed_definedName {method : Method} (closed : ClosedTitle method) :
    Trimmed (Render.definedName method).toList ∧ (Render.definedName method).toList ≠ [] := by
  have given := toList_ne_nil closed.named
  have self : Trimmed "self.".toList := by decide +kernel
  unfold Render.definedName
  split
  · rw [String.toList_append]
    exact ⟨self.around closed.trimmed (by decide) given [], by simp⟩
  · exact ⟨closed.trimmed, given⟩

theorem unopened_definedName {method : Method} (closed : ClosedTitle method) :
    '(' ∉ (Render.definedName method).toList := by
  unfold Render.definedName
  split
  · rw [String.toList_append, List.mem_append, not_or]
    exact ⟨by decide, closed.unopened⟩
  · exact closed.unopened

/-- The name in a title has neither blanks nor parentheses. -/
theorem bare_definedName {method : Method} (plain : PlainTitle method) :
    ∀ c ∈ (Render.definedName method).toList, isBlank c = false ∧ c ≠ '(' := by
  intro c member
  unfold Render.definedName at member
  split at member
  · rw [String.toList_append] at member
    rcases List.mem_append.mp member with self | name
    · have each : "self.".toList.all (fun c => !isBlank c && c != '(') = true := by decide
      simpa using List.all_eq_true.mp each c self
    · exact plain.bare c name
  · exact plain.bare c member

/-- A title without parameters is the name, any other one has them in parentheses after the name. -/
theorem toList_title (method : Method) :
    (title method).toList = (Render.definedName method).toList ++
      if method.parameters = [] then []
      else '(' :: ([',', ' '].intercalate (method.parameters.map (·.text.toList)) ++ [')']) := by
  have separator : ", ".toList = [',', ' '] := rfl
  unfold title
  cases method.parameters with
  | nil => simp [Parameter.listText]
  | cons first rest =>
    simp [Parameter.listText, String.toList_intercalate, separator, Function.comp_def]

/-- The parameters are found between the parentheses, and the name before them. -/
theorem readTitle_of_texts {name : List Char} (unopened : '(' ∉ name) (trimmed : Trimmed name)
    {texts : List (List Char)} (parts : Parts texts) (each : ∀ text ∈ texts, text ≠ [] ∧ Trimmed text) :
    readTitle (name ++ if texts = [] then [] else '(' :: ([',', ' '].intercalate texts ++ [')'])) =
      (texts.mapM readParameter).map fun parameters =>
        ⟨String.ofList (bindingOf name).2, parameters, (bindingOf name).1⟩ := by
  have reads {written : List Char} (listed : ((parenthesized? written).map splitParameters).getD [] = texts)
      (named : written.takeWhile (· != '(') = name) :
      readTitle written = (texts.mapM readParameter).map fun parameters =>
        ⟨String.ofList (bindingOf name).2, parameters, (bindingOf name).1⟩ := by
    unfold readTitle
    dsimp only
    rw [listed, named, trimmed.trim_eq]
    cases texts.mapM readParameter <;> rfl
  split
  · next empty =>
    rw [List.append_nil]
    apply reads
    · rw [parenthesized?_of_bare unopened, empty]
      rfl
    · have whole := takeWhile_of_bare unopened (.inl rfl)
      rwa [List.append_nil] at whole
  · apply reads
    · rw [parenthesized?_of_list unopened, Option.map_some, Option.getD_some]
      exact splitParameters_join parts (fun text member => (each text member).2) fun text member => (each text member).1
    · exact takeWhile_of_bare unopened (.inr rfl)

/-- Parameters that are found again in a list are found in a title. -/
theorem readTitle_of_name {name : List Char} (unopened : '(' ∉ name) (trimmed : Trimmed name)
    {parameters : List Parameter} (closed : ∀ parameter ∈ parameters, ClosedParameter parameter) :
    readTitle (name ++ if parameters = [] then []
        else '(' :: ([',', ' '].intercalate (parameters.map (·.text.toList)) ++ [')'])) =
      .ok ⟨String.ofList (bindingOf name).2, parameters, (bindingOf name).1⟩ := by
  have whole : ∀ text ∈ parameters.map (·.text.toList), Whole {} text := by
    rintro _ member
    obtain ⟨parameter, listed, rfl⟩ := List.mem_map.mp member
    exact (closed parameter listed).whole_text
  have each : ∀ text ∈ parameters.map (·.text.toList), text ≠ [] ∧ Trimmed text := by
    rintro _ member
    obtain ⟨parameter, listed, rfl⟩ := List.mem_map.mp member
    exact (closed parameter listed).settled.text
  have read := readTitle_of_texts unopened trimmed (.of_whole whole) each
  rw [mapM_readParameter_iff.mpr fun parameter listed => readParameter_text (closed parameter listed)] at read
  simpa only [List.map_eq_nil_iff, Except.map] using read

/-- A title is read as it is written. -/
theorem readTitle_title {method : Method} (plain : PlainTitle method) :
    readTitle (title method).toList =
      .ok ⟨method.name, method.parameters, titledBinding method.binding⟩ := by
  rw [toList_title, readTitle_of_name (unopened_definedName plain.closed) (trimmed_definedName plain.closed).1
    plain.closed.parameters, bindingOf_definedName plain.closed, String.ofList_toList]

/-- A title is read as it is written whatever the defaults hold within brackets and quotes, on several lines too. -/
theorem readTitle_of_closed {method : Method} (closed : ClosedTitle method) :
    readTitle (title method).toList =
      .ok ⟨method.name, method.parameters, titledBinding method.binding⟩ := by
  rw [toList_title, readTitle_of_name (unopened_definedName closed) (trimmed_definedName closed).1 closed.parameters,
    bindingOf_definedName closed, String.ofList_toList]

/-- A method whose defaults have commas and parentheses of their own, in brackets, in quotes and on two lines. -/
def nestedMethod : Method where
  name := "a) b"
  parameters :=
    [.required "x", .optional "y" "[1, ')', f(2)]", .rest "", .requiredKeyword "k",
      .optionalKeyword "o" "\"(, \" +\n g(3)", .keywordRest "rest", .block "", .forward]
  binding := .inSingleton
  body := ""
  visibility := .pub
  prose := none

theorem readTitle_of_closed_of_nested :
    ClosedTitle nestedMethod ∧
      title nestedMethod = "a) b(x, y = [1, ')', f(2)], *, k:, o: \"(, \" +\n g(3), **rest, &, ...)" ∧
      readTitle "a) b(x, y = [1, ')', f(2)], *, k:, o: \"(, \" +\n g(3), **rest, &, ...)".toList =
        .ok ⟨"a) b", nestedMethod.parameters, .onInstance⟩ := by
  have closed : ClosedTitle nestedMethod :=
    ⟨by decide, by decide +kernel, by decide, by decide, by decide, by decide +kernel⟩
  have written :
      title nestedMethod = "a) b(x, y = [1, ')', f(2)], *, k:, o: \"(, \" +\n g(3), **rest, &, ...)" := by
    decide +kernel
  refine ⟨closed, written, ?_⟩
  rw [← written]
  exact readTitle_of_closed closed

/-! ## Titles in headings -/

private theorem unbroken_of_word {s : String} (word : WordText s) : Text.Unbroken s.toList :=
  Text.unbroken_of_shown fun c member => Text.isBlank_of_isWord (word c member)

private theorem PlainParameter.unbroken {parameter : Parameter} (plain : PlainParameter parameter) :
    Text.Unbroken parameter.text.toList := by
  cases parameter with
  | required name => exact unbroken_of_word plain.2
  | optional name default => simp [Parameter.text, unbroken_of_word plain.1.2, plain.2.unbroken]
  | requiredKeyword name => simp [Parameter.text, unbroken_of_word plain.2]
  | optionalKeyword name default => simp [Parameter.text, unbroken_of_word plain.1.2, plain.2.unbroken]
  | rest name => simp [Parameter.text, unbroken_of_word plain]
  | keywordRest name => simp [Parameter.text, unbroken_of_word plain]
  | block name => simp [Parameter.text, unbroken_of_word plain]
  | forward => simp [Parameter.text]

/-- The title of a method is trimmed if its name is. -/
theorem trimmed_title {method : Method} (trimmed : Trimmed (Render.definedName method).toList)
    (named : method.name ≠ "") : Trimmed (title method).toList ∧ (title method).toList ≠ [] := by
  have given : (Render.definedName method).toList ≠ [] := by
    unfold Render.definedName
    split
    · simp
    · exact toList_ne_nil named
  rw [toList_title]
  split
  · rw [List.append_nil]
    exact ⟨trimmed, given⟩
  · have closing : Trimmed [')'] := Text.trimmed_of_shown (by simp; decide)
    exact ⟨trimmed.around closing given (by simp) (_ :: _), by simp⟩

/-- The title of a method stands on one line if its parts do. -/
theorem unbroken_title {method : Method} (name : Text.Unbroken method.name.toList)
    (parameters : ∀ parameter ∈ method.parameters, Text.Unbroken parameter.text.toList) :
    Text.Unbroken (title method).toList := by
  have defined : Text.Unbroken (Render.definedName method).toList := by
    unfold Render.definedName
    split
    · simpa using name
    · exact name
  rw [toList_title, Text.unbroken_append]
  refine ⟨defined, ?_⟩
  split
  · exact Text.unbroken_nil
  · rw [Text.unbroken_cons, Text.unbroken_append]
    refine ⟨by decide, Text.unbroken_intercalate (by simp) fun piece member => ?_, by simp⟩
    obtain ⟨parameter, listed, rfl⟩ := List.mem_map.mp member
    exact parameters parameter listed

/-- A title stands on one line, without blanks at its ends. -/
theorem title_line {method : Method} (plain : PlainTitle method) :
    Trimmed (title method).toList ∧ (title method).toList ≠ [] ∧ Text.Unbroken (title method).toList := by
  have shown : ∀ c ∈ method.name.toList, isBlank c = false := fun c member => (plain.bare c member).1
  obtain ⟨trimmed, given⟩ := trimmed_title (trimmed_definedName plain.closed).1 plain.closed.named
  exact ⟨trimmed, given, unbroken_title (Text.unbroken_of_shown shown) fun parameter listed =>
    (plain.parameters parameter listed).unbroken⟩

/-- A character that has no other small form is still there in small letters. -/
theorem mem_lower {c : Char} (small : Text.lowerChar c = [c]) (other : c.toNat ≠ 0x3A3) {cs : List Char}
    (member : c ∈ cs) : c ∈ Text.lower cs := by
  have from' (before : List Char) : c ∈ Text.lowerFrom before cs := by
    induction cs generalizing before with
    | nil => cases member
    | cons first rest ih =>
      rw [Text.lowerFrom]
      rcases List.mem_cons.mp member with rfl | later
      · rw [if_neg other, small]
        exact List.mem_append_left _ (List.mem_singleton_self c)
      · exact List.mem_append_right _ (ih later (first :: before))
  exact from' []

/-- A text with a sign that no keyword has is no keyword of a visibility. -/
theorem ofText?_of_mem {c : Char} (small : Text.lowerChar c = [c]) (other : c.toNat ≠ 0x3A3)
    (foreign : ∀ visibility : Visibility, c ∉ visibility.keyword.toList) {text : String}
    (trimmed : Trimmed text.toList) (member : c ∈ text.toList) : Visibility.ofText? text = none := by
  unfold Visibility.ofText? Visibility.ofKeyword?
  rw [trimmed.trim_eq, List.find?_eq_none]
  intro visibility _ same
  have word : visibility.keyword = String.ofList (Text.lower text.toList) := by simpa using same
  have absent := foreign visibility
  rw [word, String.toList_ofList] at absent
  exact absent (mem_lower small other member)

/-- The title of a method that is not named like a visibility is no keyword. -/
theorem ofText?_title {method : Method} (plain : PlainTitle method)
    (unreserved : Visibility.ofText? method.name = none) : Visibility.ofText? (title method) = none := by
  have trimmed := (title_line plain).1
  by_cases empty : method.parameters = []
  · by_cases self : method.binding = .onSelf
    · have dot : '.' ∈ (title method).toList := by
        rw [toList_title, Render.definedName, if_pos self]
        simp
      exact ofText?_of_mem (by decide) (by decide) (by rintro (_ | _ | _) <;> decide) trimmed dot
    · have bare : title method = method.name := by
        rw [title, Render.definedName, if_neg self, empty]
        simp [Parameter.listText]
      rw [bare]
      exact unreserved
  · have opening : '(' ∈ (title method).toList := by
      rw [toList_title, if_neg empty]
      simp
    exact ofText?_of_mem (by decide) (by decide) (by rintro (_ | _ | _) <;> decide) trimmed opening

/-- No method has the title of the singleton block. -/
theorem title_ne_singleton {method : Method} (plain : PlainTitle method) :
    (title method).toList ≠ singletonTitle := by
  intro same
  rw [toList_title] at same
  split at same
  · rw [List.append_nil] at same
    have blank : ' ' ∈ (Render.definedName method).toList := by
      rw [same]
      decide
    exact absurd (bare_definedName plain ' ' blank).1 (by decide)
  · have opening : '(' ∈ singletonTitle := by
      rw [← same]
      simp
    exact absurd opening (by decide)

end LiterateRuby.Literate
