import LiterateRuby.Proofs.Literate.Section
import LiterateRuby.Proofs.Literate.Title
import LiterateRuby.Render.Ruby

/-! # Declarations are read as they are written

A constant, a class variable or a list of attributes comes back from its line. Of a value only its literal
is read, so it may come back as another value with the same literal (`rereadValue`).
`mapM_declarationCalls` gives the calls that all the declarations of a unit make.
-/

namespace LiterateRuby.Literate

open Text (isBlank isWord Trimmed Unbroken)
open Draft (Call)

/-! ## Values -/

/-- A value that the notation can hold: its literal is one trimmed line and reads as a value with the same
literal. -/
def PlainValue (value : Constant) : Prop :=
  ∃ source again, value.literal = .ok source ∧ Trimmed source.toList ∧ Unbroken source.toList ∧
    readValue source.toList = .ok again ∧ again.literal = .ok source

def sourceOf (value : Constant) : String := value.literal.toOption.getD ""

/-- The value that the literal of a value reads as. -/
def rereadValue (value : Constant) : Constant :=
  (readValue (sourceOf value).toList).toOption.getD .nil

/-- What the literal of a value has to be. -/
structure PlainSource (value : Constant) : Prop where
  written : value.literal = .ok (sourceOf value)
  trimmed : Trimmed (sourceOf value).toList
  given : (sourceOf value).toList ≠ []
  unbroken : Unbroken (sourceOf value).toList
  read : readValue (sourceOf value).toList = .ok (rereadValue value)
  again : (rereadValue value).literal = .ok (sourceOf value)

theorem PlainValue.source {value : Constant} (plain : PlainValue value) : PlainSource value := by
  obtain ⟨source, again, written, trimmed, unbroken, read, same⟩ := plain
  have written' : sourceOf value = source := by simp [sourceOf, written, Except.toOption]
  have read' : rereadValue value = again := by simp [rereadValue, written', read, Except.toOption]
  refine ⟨by rw [written', written], by rwa [written'], ?_, by rwa [written'],
    by rw [written', read', read], by rw [written', read', same]⟩
  rw [written']
  intro empty
  -- the empty text would read as nil, which is not written so
  rw [empty] at read
  cases read
  rw [String.toList_eq_nil_iff] at empty
  rw [empty] at same
  exact absurd (Except.ok.inj same) (by decide)

private theorem readValue_space (source : List Char) : readValue (' ' :: source) = readValue source := by
  have blank := @Text.trim_append_left [' '] (by decide) source
  unfold readValue
  dsimp only
  rw [← List.singleton_append, blank]

/-! ## Names -/

/-- A name of capital letters, digits and underscores that starts with a letter. -/
def ConstantName (name : String) : Prop :=
  (∃ c rest, name.toList = c :: rest ∧ isCapital c = true) ∧ ∀ c ∈ name.toList, isConstantChar c = true

/-- Two signs and a word. -/
def ClassVariableName (name : String) : Prop :=
  ∃ bare : String, name = "@@" ++ bare ∧ bare ≠ "" ∧ WordText bare

def assignment (name : String) (value : Constant) : String := name ++ " = " ++ sourceOf value

theorem toList_assignment (name : String) (value : Constant) :
    (assignment name value).toList = name.toList ++ (' ' :: '=' :: ' ' :: (sourceOf value).toList) := by
  simp [assignment]

/-- A value stands behind an equals sign, unless it makes the sign a longer operator. -/
theorem assigned?_of_gap {value : List Char} (gap : ∀ c, value.head? = some c → c = ' ') :
    assigned? (' ' :: '=' :: value) = some value := by
  cases value with
  | nil => rfl
  | cons c rest =>
    obtain rfl := gap c rfl
    rfl

private theorem gap_source (value : Constant) : ∀ c, (' ' :: (sourceOf value).toList).head? = some c → c = ' ' := by
  rintro c ⟨⟩
  rfl

private theorem ne_of_isCapital {c d : Char} (capital : isCapital c = true) (other : isCapital d = false) :
    c ≠ d := by
  rintro rfl
  rw [capital] at other
  cases other

theorem after?_of_ne {p c : Char} {ps cs : List Char} (different : p ≠ c) :
    Text.after? (p :: ps) (c :: cs) = none := by
  rw [Text.after?, if_neg different]

/-- A line that does not start as the word of an accessor does declares no attributes. -/
theorem attributes?_of_head {c : Char} {rest : List Char} (other : c ≠ 'a') :
    attributes? (c :: rest) = none := by
  unfold attributes?
  rw [List.findSome?_eq_none_iff]
  intro accessor _
  have absent : Text.after? accessor.keyword.toList (c :: rest) = none := by
    cases accessor <;> exact after?_of_ne (Ne.symm other)
  rw [absent]

/-- What a name, an equals sign and a value declare. -/
theorem readDeclaration_of_constant {name : String} (named : ConstantName name) {value : List Char}
    (gap : ∀ c, value.head? = some c → c = ' ') :
    readDeclaration (name.toList ++ ' ' :: '=' :: value) = .constant name value := by
  obtain ⟨⟨c, rest, starts, capital⟩, each⟩ := named
  have absent : attributes? (name.toList ++ ' ' :: '=' :: value) = none := by
    rw [starts]
    exact attributes?_of_head (ne_of_isCapital capital (by decide))
  have taken : (name.toList ++ ' ' :: '=' :: value).takeWhile isConstantChar = name.toList := by
    rw [List.takeWhile_append_of_pos each, List.takeWhile_cons_of_neg (by decide), List.append_nil]
  have dropped : (name.toList ++ ' ' :: '=' :: value).dropWhile isConstantChar = ' ' :: '=' :: value := by
    rw [List.dropWhile_append_of_pos each, List.dropWhile_cons_of_neg (by decide)]
  have found : constant? (name.toList ++ ' ' :: '=' :: value) = some (.constant name value) := by
    unfold constant?
    dsimp only
    rw [taken, dropped, assigned?_of_gap gap, starts, List.head?_cons, Option.map_some, Option.getD_some,
      if_pos capital, Option.map_some, ← starts, String.ofList_toList]
  rw [readDeclaration, absent, found]
  rfl

private theorem readDeclaration_constant {name : String} (named : ConstantName name) (value : Constant) :
    readDeclaration (assignment name value).toList =
      .constant name (' ' :: (sourceOf value).toList) := by
  rw [toList_assignment]
  exact readDeclaration_of_constant named (gap_source value)

/-- What two signs, a word, an equals sign and a value declare. -/
theorem readDeclaration_of_classVariable {name : String} (named : ClassVariableName name) {value : List Char}
    (gap : ∀ c, value.head? = some c → c = ' ') :
    readDeclaration (name.toList ++ ' ' :: '=' :: value) = .classVariable name value := by
  obtain ⟨bare, rfl, given, word⟩ := named
  have written : ("@@" ++ bare).toList ++ ' ' :: '=' :: value =
      '@' :: '@' :: (bare.toList ++ ' ' :: '=' :: value) := by
    simp
  have attributes : attributes? ('@' :: '@' :: (bare.toList ++ ' ' :: '=' :: value)) = none :=
    attributes?_of_head (by decide)
  have constants : constant? ('@' :: '@' :: (bare.toList ++ ' ' :: '=' :: value)) = none := by
    rw [constant?, List.takeWhile_cons_of_neg (by decide)]
    rfl
  have stops : ∀ c, (' ' :: '=' :: value).head? = some c → isWord c = false := by
    rintro c ⟨⟩
    decide +kernel
  obtain ⟨taken, dropped⟩ := takeWhile_word word stops
  have filled : bare.toList.isEmpty = false := by simpa using toList_ne_nil given
  have found : classVariable? ('@' :: '@' :: (bare.toList ++ ' ' :: '=' :: value)) =
      some (.classVariable ("@@" ++ bare) value) := by
    have signs := Text.after?_append ['@', '@'] (bare.toList ++ ' ' :: '=' :: value)
    have name : String.ofList ('@' :: '@' :: bare.toList) = "@@" ++ bare := by
      rw [← String.toList_inj]
      simp
    rw [List.cons_append, List.singleton_append] at signs
    unfold classVariable?
    rw [signs]
    dsimp only
    rw [taken, dropped, filled, if_neg (by decide), assigned?_of_gap gap, Option.map_some, name]
  rw [written, readDeclaration, attributes, constants, found]
  rfl

private theorem readDeclaration_classVariable {name : String} (named : ClassVariableName name) (value : Constant) :
    readDeclaration (assignment name value).toList =
      .classVariable name (' ' :: (sourceOf value).toList) := by
  rw [toList_assignment]
  exact readDeclaration_of_classVariable named (gap_source value)

/-! ## Attributes -/

/-- A word that names an attribute. -/
def AttributeName (name : String) : Prop := name ≠ "" ∧ WordText name

private theorem toList_symbols (names : List String) :
    (Render.symbols names).toList = [',', ' '].intercalate (names.map fun name => ':' :: name.toList) := by
  have separator : ", ".toList = [',', ' '] := rfl
  simp [Render.symbols, String.toList_intercalate, separator, Function.comp_def]

private theorem attributeNames_symbols {names : List String} (given : names ≠ [])
    (plain : ∀ name ∈ names, AttributeName name) :
    attributeNames (Render.symbols names).toList = names := by
  have pieces : (Text.splitOn ',' (Render.symbols names).toList).map Text.trim =
      names.map fun name => ':' :: name.toList := by
    rw [toList_symbols]
    apply Text.map_trim_splitOn (by simpa using given) _ _ (by decide)
    · intro piece member comma
      obtain ⟨name, listed, rfl⟩ := List.mem_map.mp member
      rcases List.mem_cons.mp comma with sign | inside
      · exact absurd sign (by decide)
      · exact absurd ((plain name listed).2 ',' inside) (by decide +kernel)
    · intro piece member
      obtain ⟨name, listed, rfl⟩ := List.mem_map.mp member
      exact trimmed_marked ':' (by decide) (plain name listed).2.trimmed
  have all : (names.map fun name => ':' :: name.toList).filter (!·.isEmpty) =
      names.map fun name => ':' :: name.toList := by
    rw [List.filter_eq_self]
    intro piece member
    obtain ⟨name, _, rfl⟩ := List.mem_map.mp member
    rfl
  have bare : (fun name => String.ofList (Text.dropStart [':'] name)) ∘ (fun name : String => ':' :: name.toList) =
      id := by
    funext name
    have dropped := Text.after?_append [':'] name.toList
    rw [List.singleton_append] at dropped
    simp [Text.dropStart, dropped]
  unfold attributeNames
  rw [pieces, all, List.map_map, bare, List.map_id]

private theorem readDeclaration_attributes (accessor : Accessor) {names : List String} (given : names ≠ [])
    (plain : ∀ name ∈ names, AttributeName name) :
    readDeclaration (Render.attributeLine accessor names).toList = .attributes accessor names := by
  have shown : ∀ c, (Render.symbols names).toList.head? = some c → isBlank c = false := by
    obtain ⟨first, rest, rfl⟩ := List.exists_cons_of_ne_nil given
    intro c head
    have colon : (Render.symbols (first :: rest)).toList.head? = some ':' := by
      rw [toList_symbols]
      cases rest <;> simp
    rw [colon] at head
    cases head
    decide
  have start := Text.trimStart_eq_self shown
  have filled : (Render.symbols names).toList.isEmpty = false := by
    obtain ⟨first, rest, rfl⟩ := List.exists_cons_of_ne_nil given
    rw [toList_symbols]
    cases rest <;> simp
  have line : (Render.attributeLine accessor names).toList =
      accessor.keyword.toList ++ ' ' :: (Render.symbols names).toList := by
    simp [Render.attributeLine]
  have own := Text.after?_append accessor.keyword.toList (' ' :: (Render.symbols names).toList)
  have others (other : Accessor) (different : other ≠ accessor) :
      Text.after? other.keyword.toList (accessor.keyword.toList ++ ' ' :: (Render.symbols names).toList) =
        none := by
    cases other <;> cases accessor <;> first | exact absurd rfl different | rfl
  have blank : isBlank ' ' = true := by decide
  have found : attributes? (Render.attributeLine accessor names).toList =
      some (.attributes accessor names) := by
    unfold attributes?
    rw [line, Accessor.all]
    cases accessor with
    | reader =>
      simp only [List.findSome?_cons, own, start, filled, blank, attributeNames_symbols given plain]
      rfl
    | writer =>
      simp only [List.findSome?_cons, others .reader (by decide), own, start, filled, blank,
        attributeNames_symbols given plain]
      rfl
    | both =>
      simp only [List.findSome?_cons, others .reader (by decide), others .writer (by decide), own, start,
        filled, blank, attributeNames_symbols given plain]
      rfl
  rw [readDeclaration, found]
  rfl

/-! ## The declarations of a unit -/

/-- A line that is read as one call. -/
structure ReadsAs (key : String) (line : String) (call : Call) : Prop where
  trimmed : Trimmed line.toList
  given : line.toList ≠ []
  unbroken : Unbroken line.toList
  inert : Inert [line.toList]
  reads : declarationCalls key line.toList = .ok [call]

private theorem shown_of_isCapital {c : Char} (capital : isCapital c = true) : isBlank c = false := by
  simp only [isCapital, Bool.and_eq_true, decide_eq_true_eq, Char.le_def, UInt32.le_iff_toNat_le] at capital
  have least : 65 ≤ c.toNat := capital.1
  have most : c.toNat ≤ 90 := capital.2
  exact Text.shown_of_codes (by omega) (by omega)

private theorem shown_of_isConstantChar {c : Char} (allowed : isConstantChar c = true) : isBlank c = false := by
  simp only [isConstantChar, Bool.or_eq_true, Bool.and_eq_true, decide_eq_true_eq, Char.le_def,
    UInt32.le_iff_toNat_le, beq_iff_eq] at allowed
  rcases allowed with (capital | digit) | underscore
  · exact shown_of_isCapital capital
  · have least : 48 ≤ c.toNat := digit.1
    have most : c.toNat ≤ 57 := digit.2
    exact Text.shown_of_codes (by omega) (by omega)
  · rw [underscore]
    decide

/-- An assignment to a name without blanks is written as one line. -/
theorem assignment_line {name : String} (given : name.toList ≠ [])
    (shown : ∀ c ∈ name.toList, isBlank c = false) {value : Constant} (source : PlainSource value) :
    Trimmed (assignment name value).toList ∧ (assignment name value).toList ≠ [] ∧
      Unbroken (assignment name value).toList := by
  have parts : (assignment name value).toList =
      name.toList ++ ([' ', '=', ' '] ++ (sourceOf value).toList) := by
    simp [toList_assignment]
  rw [parts]
  refine ⟨(Text.trimmed_of_shown shown).around source.trimmed given source.given _, by simp, ?_⟩
  rw [Text.unbroken_append, Text.unbroken_append]
  exact ⟨Text.unbroken_of_shown shown, by simp, source.unbroken⟩

private theorem readsAs_constant (key : String) {name : String} (named : ConstantName name) {value : Constant}
    (plain : PlainValue value) :
    ReadsAs key (assignment name value) (.addConstant key name (rereadValue value)) := by
  have source := plain.source
  have shown : ∀ c ∈ name.toList, isBlank c = false := fun c member =>
    shown_of_isConstantChar (named.2 c member)
  obtain ⟨c, rest, starts, capital⟩ := named.1
  obtain ⟨trimmed, given, unbroken⟩ := assignment_line (by simp [starts]) shown source
  refine ⟨trimmed, given, unbroken, ?_, ?_⟩
  · rw [toList_assignment, starts]
    exact inert_of_head (shown_of_isCapital capital) (ne_of_isCapital capital (by decide))
      (ne_of_isCapital capital (by decide)) (ne_of_isCapital capital (by decide))
  · rw [declarationCalls_eq_ok_iff, trimmed.trim_eq, readDeclaration_constant named]
    exact .constant (by rw [readValue_space, source.read])

private theorem readsAs_classVariable (key : String) {name : String} (named : ClassVariableName name)
    {value : Constant} (plain : PlainValue value) :
    ReadsAs key (assignment name value) (.addClassVariable key name (rereadValue value)) := by
  have source := plain.source
  obtain ⟨bare, same, _, word⟩ := id named
  have starts : name.toList = '@' :: '@' :: bare.toList := by simp [same]
  have shown : ∀ c ∈ name.toList, isBlank c = false := by
    rw [starts]
    intro c member
    simp only [List.mem_cons] at member
    rcases member with rfl | rfl | inside
    · decide
    · decide
    · exact Text.isBlank_of_isWord (word c inside)
  obtain ⟨trimmed, given, unbroken⟩ := assignment_line (by simp [starts]) shown source
  refine ⟨trimmed, given, unbroken, ?_, ?_⟩
  · rw [toList_assignment, starts]
    exact inert_of_head (by decide) (by decide) (by decide) (by decide)
  · rw [declarationCalls_eq_ok_iff, trimmed.trim_eq, readDeclaration_classVariable named]
    exact .classVariable (by rw [readValue_space, source.read])

private theorem readsAs_attributes (key : String) (accessor : Accessor) {names : List String} (given : names ≠ [])
    (plain : ∀ name ∈ names, AttributeName name) :
    ReadsAs key (Render.attributeLine accessor names) (.addAttribute key accessor names) := by
  have line : (Render.attributeLine accessor names).toList =
      accessor.keyword.toList ++ ([' '] ++ (Render.symbols names).toList) := by
    simp [Render.attributeLine]
  have keyword : ∀ c ∈ accessor.keyword.toList, isBlank c = false :=
    Text.shown_of_all (by cases accessor <;> decide)
  obtain ⟨ends, more⟩ : Trimmed (Render.symbols names).toList ∧ (Render.symbols names).toList ≠ [] := by
    rw [toList_symbols]
    apply Text.trimmed_intercalate _ (by simpa using given)
    intro piece member
    obtain ⟨name, listed, rfl⟩ := List.mem_map.mp member
    exact ⟨trimmed_marked ':' (by decide) (plain name listed).2.trimmed, by simp⟩
  have symbols : Unbroken (Render.symbols names).toList := by
    rw [toList_symbols]
    apply Text.unbroken_intercalate (by simp)
    intro piece member
    obtain ⟨name, listed, rfl⟩ := List.mem_map.mp member
    rw [Text.unbroken_cons]
    exact ⟨by decide, Text.unbroken_of_shown fun c inside => Text.isBlank_of_isWord ((plain name listed).2 c inside)⟩
  have trimmed : Trimmed (Render.attributeLine accessor names).toList := by
    rw [line]
    exact (Text.trimmed_of_shown keyword).around ends (by cases accessor <;> decide) more _
  refine ⟨trimmed, by simp [line], ?_, ?_, ?_⟩
  · rw [line, Text.unbroken_append, Text.unbroken_append]
    exact ⟨Text.unbroken_of_shown keyword, by simp, symbols⟩
  · rw [line]
    cases accessor <;> exact inert_of_head (by decide) (by decide) (by decide) (by decide)
  · rw [declarationCalls_eq_ok_iff, trimmed.trim_eq, readDeclaration_attributes accessor given plain]
    exact .attributes given

/-- All declarations of attributes of a unit, in the order in which they are written. -/
def allAttributes (unit : RubyUnit) : List Attribute :=
  (Accessor.all.filter fun accessor => !(unit.declared accessor).isEmpty).map
    (fun accessor => ⟨accessor, unit.declared accessor⟩) ++ unit.attributes

/-- The declarations of a unit: each line with the call that it is read as. -/
def declarationPairs (key : String) (unit : RubyUnit) : List (String × Call) :=
  unit.classVariables.map (fun (name, value) =>
      (assignment name value, .addClassVariable key name (rereadValue value))) ++
    (unit.constants.map (fun (name, value) =>
        (assignment name value, .addConstant key name (rereadValue value))) ++
      (allAttributes unit).map fun declaration =>
        (Render.attributeLine declaration.accessor declaration.names,
          .addAttribute key declaration.accessor declaration.names))

/-- The declarations of a unit are such as the notation can hold. -/
structure PlainDeclarations (unit : RubyUnit) : Prop where
  constantsOnce : unit.constants.keys.Nodup
  classVariablesOnce : unit.classVariables.keys.Nodup
  constants : ∀ entry ∈ unit.constants, ConstantName entry.1 ∧ PlainValue entry.2
  classVariables : ∀ entry ∈ unit.classVariables, ClassVariableName entry.1 ∧ PlainValue entry.2
  declared : ∀ accessor, ∀ name ∈ unit.declared accessor, AttributeName name
  attributes : ∀ declaration ∈ unit.attributes, declaration.names ≠ [] ∧
    ∀ name ∈ declaration.names, AttributeName name

theorem PlainDeclarations.allAttributes {unit : RubyUnit} (plain : PlainDeclarations unit) :
    ∀ declaration ∈ allAttributes unit, declaration.names ≠ [] ∧
      ∀ name ∈ declaration.names, AttributeName name := by
  intro declaration member
  rcases List.mem_append.mp member with front | inline
  · obtain ⟨accessor, listed, rfl⟩ := List.mem_map.mp front
    have given : unit.declared accessor ≠ [] := by simpa using (List.mem_filter.mp listed).2
    exact ⟨given, plain.declared accessor⟩
  · exact plain.attributes declaration inline

/-- Each declaration is read as its call. -/
theorem PlainDeclarations.readsAs {unit : RubyUnit} (plain : PlainDeclarations unit) (key : String) :
    ∀ pair ∈ declarationPairs key unit, ReadsAs key pair.1 pair.2 := by
  intro pair member
  simp only [declarationPairs, List.mem_append, List.mem_map] at member
  rcases member with ⟨entry, listed, rfl⟩ | ⟨entry, listed, rfl⟩ | ⟨declaration, listed, rfl⟩
  · obtain ⟨named, value⟩ := plain.classVariables entry listed
    exact readsAs_classVariable key named value
  · obtain ⟨named, value⟩ := plain.constants entry listed
    exact readsAs_constant key named value
  · obtain ⟨given, names⟩ := plain.allAttributes declaration listed
    exact readsAs_attributes key declaration.accessor given names

/-- Values that have literals are written as one assignment each. -/
theorem assignments_eq {values : Entries String Constant}
    (written : ∀ entry ∈ values, entry.2.literal = .ok (sourceOf entry.2)) :
    Render.assignments values = .ok (values.map fun (name, value) => assignment name value) := by
  unfold Render.assignments
  induction values with
  | nil => rfl
  | cons entry rest ih =>
    obtain ⟨name, value⟩ := entry
    have first : Render.literal value = .ok (sourceOf value) := by
      rw [Render.literal, written (name, value) List.mem_cons_self]
      rfl
    have later := ih fun other member => written other (List.mem_cons_of_mem _ member)
    rw [List.mapM_cons, later]
    simp only [first, Except.ok_bind]
    rfl

theorem attributeLines_eq (unit : RubyUnit) :
    Render.attributeLines unit =
      (allAttributes unit).map fun declaration => Render.attributeLine declaration.accessor declaration.names := by
  simp [Render.attributeLines, allAttributes]

/-- The lines of the declarations of a unit. -/
theorem PlainDeclarations.declarationLines_eq {unit : RubyUnit} (plain : PlainDeclarations unit)
    (key : String) : declarationLines unit = .ok ((declarationPairs key unit).map (·.1)) := by
  unfold declarationLines
  rw [assignments_eq fun entry member => (plain.classVariables entry member).2.source.written,
    assignments_eq fun entry member => (plain.constants entry member).2.source.written, attributeLines_eq]
  simp [declarationPairs, pure, Except.pure, Function.comp_def]

private theorem mapM_declarationCalls {key : String} {pairs : List (String × Call)}
    (reads : ∀ pair ∈ pairs, ReadsAs key pair.1 pair.2) :
    (pairs.map (·.1.toList)).mapM (declarationCalls key) = .ok (pairs.map fun pair => [pair.2]) := by
  induction pairs with
  | nil => rfl
  | cons pair rest ih =>
    have first := (reads pair List.mem_cons_self).reads
    have later := ih fun other member => reads other (List.mem_cons_of_mem _ member)
    rw [List.map_cons, List.mapM_cons, first, Except.ok_bind, later]
    rfl

/-- The lines of declarations are read as their calls. -/
theorem textCalls_declarations {key : String} {pairs : List (String × Call)}
    (reads : ∀ pair ∈ pairs, ReadsAs key pair.1 pair.2) :
    textCalls key none (pairs.map (·.1.toList)) = .ok (pairs.map (·.2)) := by
  have trimmed : Trimmed (Text.unlines (pairs.map (·.1.toList))) := by
    apply Text.trimmed_unlines
    intro line member
    obtain ⟨pair, listed, rfl⟩ := List.mem_map.mp member
    exact ⟨(reads pair listed).trimmed, (reads pair listed).given⟩
  rw [textCalls_none, trimmed.trim_eq]
  cases pairs with
  | nil => rfl
  | cons pair rest =>
    have split : Text.lines (Text.unlines ((pair :: rest).map (·.1.toList))) =
        (pair :: rest).map (·.1.toList) := by
      apply Text.lines_unlines (by simp)
      intro line member
      obtain ⟨other, listed, rfl⟩ := List.mem_map.mp member
      exact (reads other listed).unbroken.flat
    rw [split, mapM_declarationCalls reads]
    have flat : ((pair :: rest).map fun pair => [pair.2]).flatten = (pair :: rest).map (·.2) := by
      rw [← List.flatMap_def, List.map_eq_flatMap]
    exact congrArg Except.ok flat

end LiterateRuby.Literate
