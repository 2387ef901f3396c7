import LiterateRuby.Proofs.Literate.Title

/-! # Titles that were read are settled

Any text can be split into parameters, and any text can be read as a title. What comes of it is written in one way:
splitting the written list gives the same texts, and reading the written title gives the same name, parameters and
binding. Only a parameter `*` of a name that begins with a star is lost, as its text has two stars
(`readTitle_settles`).
-/

namespace LiterateRuby.Literate

open Text (isWord isBlank Trimmed)

/-! ## Parameters -/

private theorem scannedAlike_append {first second rest other : List Char} (before : ∀ c ∈ first, Neutral c)
    (after : ∀ c ∈ second, Neutral c) (alike : ScannedAlike rest other) :
    ScannedAlike (first ++ rest) (second ++ other) :=
  (((whole_of_neutral before).scannedAlike rest).trans alike).trans
    ((whole_of_neutral after).scannedAlike other).symm

private theorem neutral_append {first second : List Char} (before : ∀ c ∈ first, Neutral c)
    (after : ∀ c ∈ second, Neutral c) :
    ∀ c ∈ first ++ second, Neutral c :=
  fun c member => (List.mem_append.mp member).elim (before c) (after c)

private theorem trimmed_trimmedText (cs : List Char) : Trimmed (trimmedText cs).toList := by
  rw [trimmedText, String.toList_ofList]
  exact Text.trimmed_trim cs

private theorem scannedAlike_trimmedText (cs : List Char) : ScannedAlike cs (trimmedText cs).toList := by
  rw [trimmedText, String.toList_ofList]
  exact scannedAlike_trim cs

private theorem settled_name {name : List Char} (given : name ≠ []) (word : ∀ c ∈ name, isWord c = true) :
    String.ofList name ≠ "" ∧ WordText (String.ofList name) :=
  ⟨by simpa using given, by simpa [WordText] using word⟩

/-- Any text that is trimmed and not empty is a parameter. What is written for it opens and closes as the text does. -/
theorem readParameter_settles {token : List Char} (given : token ≠ []) (trimmed : Trimmed token) :
    ∃ parameter, readParameter token = .ok parameter ∧ Settled parameter ∧
      ScannedAlike token parameter.text.toList := by
  obtain ⟨parameter, read⟩ := exists_readParameter given trimmed.2
  refine ⟨parameter, read, ?_⟩
  rw [toList_text]
  -- a name and the sign after it are neutral, as a text gives them and as they are written
  have signed {name sign : List Char} (word : ∀ c ∈ name, isWord c = true) (neutral : ∀ c ∈ sign, Neutral c) :
      ∀ c ∈ name ++ sign, Neutral c :=
    neutral_append (fun c member => neutral_of_isWord (word c member)) neutral
  cases says_of_readParameter read with
  | forward => exact ⟨trivial, .refl _⟩
  | block name =>
    have mark : ∀ c ∈ ['&'], Neutral c := by simp [neutral_mark]
    exact ⟨trimmed_trimmedText name, scannedAlike_append mark mark (scannedAlike_trimmedText name)⟩
  | keywordRest name =>
    have stars : ∀ c ∈ ['*', '*'], Neutral c := by simp [neutral_star]
    exact ⟨trimmed_trimmedText name, scannedAlike_append stars stars (scannedAlike_trimmedText name)⟩
  | rest name =>
    have star : ∀ c ∈ ['*'], Neutral c := by simp [neutral_star]
    exact ⟨trimmed_trimmedText name, scannedAlike_append star star (scannedAlike_trimmedText name)⟩
  | @optional name gap default named word blank held =>
    have equals : ∀ c ∈ ['='], Neutral c := by simp [neutral_equals]
    have before := signed word <| neutral_append
      (fun c member => neutral_of_isBlank (List.all_eq_true.mp blank c member)) equals
    have after := signed word (by simp [neutral_space, neutral_equals] : ∀ c ∈ [' ', '=', ' '], Neutral c)
    refine ⟨⟨settled_name named word, held, trimmed_trimmedText default⟩, ?_⟩
    simpa [characters] using scannedAlike_append before after (scannedAlike_trimmedText default)
  | @requiredKeyword name gap named word blank =>
    have sign := signed word (by simp [neutral_colon] : ∀ c ∈ [':'], Neutral c)
    have alike := scannedAlike_trim gap
    rw [Text.trim_of_allBlank blank] at alike
    refine ⟨settled_name named word, ?_⟩
    simpa [characters] using scannedAlike_append sign sign alike
  | @optionalKeyword name default named word held =>
    have before := signed word (by simp [neutral_colon] : ∀ c ∈ [':'], Neutral c)
    have after := signed word (by simp [neutral_space, neutral_colon] : ∀ c ∈ [':', ' '], Neutral c)
    refine ⟨⟨settled_name named word, held, trimmed_trimmedText default⟩, ?_⟩
    simpa [characters] using scannedAlike_append before after (scannedAlike_trimmedText default)
  | required given =>
    refine ⟨⟨ofList_ne_empty given, ?_, ?_⟩, ?_⟩
    · rwa [String.toList_ofList]
    · rw [String.toList_ofList, read]
    · simpa [characters] using ScannedAlike.refl token

/-- A settled parameter is read again exactly if its name adds no star to the one before it. -/
theorem readParameter_text_iff {parameter : Parameter} (settled : Settled parameter) :
    readParameter parameter.text.toList = .ok parameter ↔ Starless parameter := by
  refine ⟨?_, readParameter_of_settled settled⟩
  rintro read name rfl star
  obtain ⟨more, starred⟩ := List.head?_eq_some_iff.mp star
  have written : (Parameter.rest name).text.toList = '*' :: '*' :: more := by simp [Parameter.text, starred]
  rw [written, readParameter] at read
  cases read

/-- The texts that a list is split into are parameters. What is written for them opens and closes as they do. -/
theorem mapM_readParameter_settles {tokens : List (List Char)} (each : ∀ token ∈ tokens, token ≠ [] ∧ Trimmed token) :
    ∃ parameters, tokens.mapM readParameter = .ok parameters ∧ (∀ parameter ∈ parameters, Settled parameter) ∧
      List.Forall₂ ScannedAlike tokens (parameters.map (·.text.toList)) := by
  induction tokens with
  | nil => exact ⟨[], rfl, by simp, .nil⟩
  | cons token rest ih =>
    obtain ⟨given, trimmed⟩ := each token List.mem_cons_self
    obtain ⟨parameter, read, settled, alike⟩ := readParameter_settles given trimmed
    obtain ⟨others, all, later, along⟩ := ih fun other member => each other (List.mem_cons_of_mem _ member)
    refine ⟨parameter :: others, ?_, List.forall_mem_cons.mpr ⟨settled, later⟩, .cons alike along⟩
    rw [List.mapM_cons, read, all]
    rfl

/-! ## Titles -/

private theorem bindingOf_fst_ne (name : List Char) : (bindingOf name).1 ≠ .inSingleton := by
  unfold bindingOf
  split
  · simp
  · dsimp only
    split <;> decide

/-- The text before the parameters in a title. -/
theorem trimmed_beforeList (written : List Char) :
    Trimmed (Text.trim (written.takeWhile (· != '('))) ∧ '(' ∉ Text.trim (written.takeWhile (· != '(')) := by
  refine ⟨Text.trimmed_trim _, fun opening => ?_⟩
  have within := List.mem_takeWhile_imp ((Text.trim_within _).subset opening)
  simp at within

/-- A title of a method whose parameters were read is read again exactly if no name of theirs adds a star. -/
theorem readTitle_iff_starless {name : List Char} (unopened : '(' ∉ name) (trimmed : Trimmed name)
    {method : Method} (binding : (bindingOf name).1 = titledBinding method.binding)
    (named : String.ofList (bindingOf name).2 = method.name)
    (settled : ∀ parameter ∈ method.parameters, Settled parameter)
    (parts : Parts (method.parameters.map (·.text.toList))) :
    readTitle (title method).toList = .ok ⟨method.name, method.parameters, titledBinding method.binding⟩ ↔
      ∀ parameter ∈ method.parameters, Starless parameter := by
  have each : ∀ text ∈ method.parameters.map (·.text.toList), text ≠ [] ∧ Trimmed text := by
    rintro _ member
    obtain ⟨parameter, listed, rfl⟩ := List.mem_map.mp member
    exact (settled parameter listed).text
  have read := readTitle_of_texts unopened trimmed parts each
  simp only [List.map_eq_nil_iff] at read
  rw [toList_title, definedName_of_bindingOf binding named, read, binding, named]
  constructor
  · intro said parameter listed
    cases all : (method.parameters.map (·.text.toList)).mapM readParameter with
    | error flaw =>
      rw [all] at said
      cases said
    | ok found =>
      rw [all] at said
      cases said
      exact (readParameter_text_iff (settled parameter listed)).mp (mapM_readParameter_iff.mp all parameter listed)
  · intro starless
    have all := mapM_readParameter_iff.mpr fun parameter listed =>
      (readParameter_text_iff (settled parameter listed)).mpr (starless parameter listed)
    rw [all]
    rfl

/-- Any list is split into trimmed texts that are split no further and, joined, are split alike. Any title is read, and
what is written for its name, binding and parameters is read alike, exactly if no name after a star begins with one. -/
theorem readTitle_settles :
    (∀ text, (∀ token ∈ splitParameters text, token ≠ [] ∧ Trimmed token ∧ splitParameters token = [token]) ∧
      splitParameters ([',', ' '].intercalate (splitParameters text)) = splitParameters text) ∧
    ∀ written, ∃ header, readTitle written = .ok header ∧
      ∀ method : Method, method.name = header.name → method.parameters = header.parameters →
        method.binding = header.binding →
        (readTitle (title method).toList = .ok header ↔
          ∀ name, .rest name ∈ header.parameters → name.toList.head? ≠ some '*') := by
  constructor
  · intro text
    obtain ⟨parts, each⟩ := parts_splitParameters text
    refine ⟨fun token member => ?_, splitParameters_join parts (fun token member => (each token member).2)
      fun token member => (each token member).1⟩
    obtain ⟨given, trimmed⟩ := each token member
    exact ⟨given, trimmed, (parts.uncut token member).splitParameters_eq trimmed given⟩
  · intro written
    obtain ⟨name, before⟩ : ∃ name, Text.trim (written.takeWhile (· != '(')) = name := ⟨_, rfl⟩
    obtain ⟨trimmed, unopened⟩ := trimmed_beforeList written
    rw [before] at trimmed unopened
    have tokens : Parts (((parenthesized? written).map splitParameters).getD []) ∧
        ∀ token ∈ ((parenthesized? written).map splitParameters).getD [], token ≠ [] ∧ Trimmed token := by
      cases parenthesized? written with
      | none => exact ⟨.of_whole (by simp), by simp⟩
      | some inner => exact parts_splitParameters inner
    obtain ⟨parameters, read, settled, alike⟩ := mapM_readParameter_settles tokens.2
    refine ⟨⟨String.ofList (bindingOf name).2, parameters, (bindingOf name).1⟩, ?_, ?_⟩
    · rw [readTitle, read, before]
      rfl
    rintro method named rfl bound
    have binding : titledBinding method.binding = (bindingOf name).1 := by
      rw [bound, titledBinding, if_neg (bindingOf_fst_ne _)]
    have again := readTitle_iff_starless unopened trimmed binding.symm named.symm settled (tokens.1.of_alike alike)
    rw [binding, named] at again
    rw [again]
    exact ⟨fun starless name listed => starless _ listed name rfl,
      fun starless parameter listed name same => starless name (same ▸ listed)⟩

/-- What is read of a title with odd spacing, an empty place in its list, and a bracket and a quote left open. -/
def oddMethod : Method where
  name := " f ]"
  parameters := [.required "a]", .optional "b" "1", .keywordRest "o", .block "x y", .rest "",
    .optionalKeyword "k" "[\"d, (e"]
  binding := .onSelf
  body := ""
  visibility := .pub
  prose := none

/-- What is read of a title with two stars apart. -/
def starredMethod : Method := { oddMethod with parameters := [.rest "*a"] }

theorem readTitle_settles_of_odd :
    (readTitle "self. f ] (a], , b= 1, **  o, & x y, *  , k:  [\"d, (e) rest".toList =
        .ok ⟨oddMethod.name, oddMethod.parameters, .onSelf⟩ ∧
      title oddMethod = "self. f ](a], b = 1, **o, &x y, *, k: [\"d, (e)" ∧
      readTitle (title oddMethod).toList = .ok ⟨oddMethod.name, oddMethod.parameters, .onSelf⟩) ∧
    readTitle "self. f ](* *a)".toList = .ok ⟨oddMethod.name, starredMethod.parameters, .onSelf⟩ ∧
      readTitle (title starredMethod).toList ≠ .ok ⟨oddMethod.name, starredMethod.parameters, .onSelf⟩ := by
  have odd : readTitle "self. f ] (a], , b= 1, **  o, & x y, *  , k:  [\"d, (e) rest".toList =
      .ok ⟨oddMethod.name, oddMethod.parameters, .onSelf⟩ := by decide +kernel
  have starred : readTitle "self. f ](* *a)".toList =
      .ok ⟨oddMethod.name, starredMethod.parameters, .onSelf⟩ := by decide +kernel
  refine ⟨⟨odd, by decide +kernel, ?_⟩, starred, ?_⟩
  · obtain ⟨header, read, again⟩ :=
      readTitle_settles.2 "self. f ] (a], , b= 1, **  o, & x y, *  , k:  [\"d, (e) rest".toList
    cases odd.symm.trans read
    exact (again oddMethod rfl rfl rfl).mpr (by simp [oddMethod])
  · obtain ⟨header, read, again⟩ := readTitle_settles.2 "self. f ](* *a)".toList
    cases starred.symm.trans read
    exact fun same => (again starredMethod rfl rfl rfl).mp same "*a" List.mem_cons_self rfl

end LiterateRuby.Literate
