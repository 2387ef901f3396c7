import LiterateRuby.Proofs.Literate.Values

/-! # The names that are read again

Source code names constants and class variables more freely than the notation: a line that assigns a value to a
name is read as the declaration of that name exactly if the notation can hold the name, and it is dropped
otherwise (`nameIn?_constant`, `nameIn?_classVariable`). What a value says on further lines is dropped too, unless
it looks like a declaration of its own (`Quiet`).
-/

namespace LiterateRuby.Literate

open Draft (Assignment)
open Text (isBlank isWord)

/-! ## Names of source code -/

/-- A constant as source code can name it: with a capital letter of any script first, and without blanks and
equals signs. -/
structure SourceConstant (name : String) : Prop where
  capital : ∃ c rest, name.toList = c :: rest ∧ (isCapital c = true ∨ 127 < c.toNat)
  plain : ∀ c ∈ name.toList, isBlank c = false ∧ c ≠ '='

private theorem sourceConstant_iff {name : String} :
    SourceConstant name ↔ name.toList.head?.any (fun c => isCapital c || decide (127 < c.toNat)) = true ∧
      name.toList.all (fun c => !isBlank c && c != '=') = true := by
  have plain : (∀ c ∈ name.toList, isBlank c = false ∧ c ≠ '=') ↔
      name.toList.all (fun c => !isBlank c && c != '=') = true := by simp
  have capital : (∃ c rest, name.toList = c :: rest ∧ (isCapital c = true ∨ 127 < c.toNat)) ↔
      name.toList.head?.any (fun c => isCapital c || decide (127 < c.toNat)) = true := by
    cases name.toList <;> simp
  exact ⟨fun source => ⟨capital.mp source.capital, plain.mp source.plain⟩,
    fun ⟨first, all⟩ => ⟨capital.mpr first, plain.mpr all⟩⟩

instance (name : String) : Decidable (SourceConstant name) := decidable_of_iff _ sourceConstant_iff.symm

/-- A class variable as source code can name it: two signs, and neither blanks nor equals signs. -/
structure SourceClassVariable (name : String) : Prop where
  signed : ∃ bare : String, name = "@@" ++ bare
  plain : ∀ c ∈ name.toList, isBlank c = false ∧ c ≠ '='

private theorem constantName_iff {name : String} :
    ConstantName name ↔ name.toList.head?.any isCapital = true ∧ name.toList.all isConstantChar = true := by
  rw [ConstantName, List.all_eq_true]
  refine and_congr_left fun _ => ?_
  cases name.toList with
  | nil => simp
  | cons c rest => simp

instance (name : String) : Decidable (ConstantName name) := decidable_of_iff _ constantName_iff.symm

private theorem classVariableName_iff {name : String} :
    ClassVariableName name ↔
      ∃ bare, Text.after? ['@', '@'] name.toList = some bare ∧ bare ≠ [] ∧ bare.all isWord = true := by
  constructor
  · rintro ⟨bare, rfl, given, word⟩
    have written : ("@@" ++ bare).toList = ['@', '@'] ++ bare.toList := by simp
    exact ⟨bare.toList, by rw [written, Text.after?_append], toList_ne_nil given, List.all_eq_true.mpr word⟩
  · rintro ⟨bare, signs, given, word⟩
    refine ⟨String.ofList bare, ?_, by simpa using given, fun c member => ?_⟩
    · rw [← String.toList_inj, Text.after?_eq_some_iff.mp signs]
      simp
    · exact List.all_eq_true.mp word c (by simpa using member)

instance (name : String) : Decidable (ClassVariableName name) :=
  decidable_of_iff
    ((Text.after? ['@', '@'] name.toList).any (fun bare => !bare.isEmpty && bare.all isWord) = true) <| by
    rw [classVariableName_iff]
    cases Text.after? ['@', '@'] name.toList <;> simp

/-! ## Names that are not read -/

private theorem assigned?_of_head {c : Char} {rest : List Char} (shown : isBlank c = false) (other : c ≠ '=') :
    assigned? (c :: rest) = none := by
  have start : Text.trimStart (c :: rest) = c :: rest := Text.trimStart_eq_self (by simp [shown])
  unfold assigned?
  rw [start]
  split
  · next same => exact absurd (List.cons.inj same).1 other
  · rfl

/-- A run of characters stops where the first other one stands. -/
theorem dropWhile_of_mem {test : Char → Bool} {cs : List Char} {c : Char} (member : c ∈ cs) (fails : test c = false)
    (rest : List Char) : ∃ d more, d ∈ cs ∧ (cs ++ rest).dropWhile test = d :: more := by
  induction cs with
  | nil => cases member
  | cons head tail ih =>
    cases passes : test head with
    | true =>
      rcases List.mem_cons.mp member with rfl | later
      · exact absurd passes (by simp [fails])
      · obtain ⟨d, more, inside, dropped⟩ := ih later
        exact ⟨d, more, List.mem_cons_of_mem _ inside, by simpa [passes] using dropped⟩
    | false => exact ⟨head, tail ++ rest, List.mem_cons_self, by simp [passes]⟩

private theorem readDeclaration_of_other_constant {name : String} (source : SourceConstant name)
    (other : ¬ConstantName name) (rest : List Char) : readDeclaration (name.toList ++ rest) = .nothing := by
  obtain ⟨c, more, starts, capital⟩ := source.capital
  have apart {d : Char} (small : isCapital d = false) (ascii : d.toNat ≤ 127) : c ≠ d := by
    rintro rfl
    rcases capital with large | wide
    · rw [small] at large
      cases large
    · omega
  have attributes : attributes? (name.toList ++ rest) = none := by
    rw [starts]
    exact attributes?_of_head (apart (by decide) (by decide))
  have shared : classVariable? (name.toList ++ rest) = none := by
    rw [starts, classVariable?, List.cons_append, after?_of_ne (apart (by decide) (by decide)).symm]
  have constants : constant? (name.toList ++ rest) = none := by
    by_cases all : ∀ d ∈ name.toList, isConstantChar d = true
    · have wide : isCapital c = false := by
        by_contra large
        rw [Bool.not_eq_false] at large
        exact other ⟨⟨c, more, starts, large⟩, all⟩
      have code := capital.resolve_left (by simp [wide])
      have allowed : isSegmentChar c = true := by
        have own := all c (by rw [starts]; exact List.mem_cons_self)
        simp only [isConstantChar, Bool.or_eq_true] at own
        simp only [isSegmentChar, Bool.or_eq_true]
        tauto
      have codes := isSegmentChar_codes allowed
      omega
    · push Not at all
      obtain ⟨d, member, fails⟩ := all
      obtain ⟨e, later, inside, dropped⟩ := dropWhile_of_mem member (by simpa using fails) rest
      obtain ⟨shown, unequal⟩ := source.plain e inside
      rw [constant?, dropped, assigned?_of_head shown unequal]
      simp
  rw [readDeclaration, attributes, constants, shared]
  rfl

private theorem readDeclaration_of_other_classVariable {name : String} (source : SourceClassVariable name)
    (other : ¬ClassVariableName name) {rest : List Char} (stops : ∀ c, rest.head? = some c → isWord c = false) :
    readDeclaration (name.toList ++ rest) = .nothing := by
  obtain ⟨bare, rfl⟩ := source.signed
  have written : ("@@" ++ bare).toList ++ rest = '@' :: '@' :: (bare.toList ++ rest) := by simp
  have attributes : attributes? ('@' :: '@' :: (bare.toList ++ rest)) = none := attributes?_of_head (by decide)
  have constants : constant? ('@' :: '@' :: (bare.toList ++ rest)) = none := by
    rw [constant?, List.takeWhile_cons_of_neg (by decide)]
    rfl
  have shared : classVariable? ('@' :: '@' :: (bare.toList ++ rest)) = none := by
    have signs := Text.after?_append ['@', '@'] (bare.toList ++ rest)
    rw [List.cons_append, List.singleton_append] at signs
    unfold classVariable?
    rw [signs]
    dsimp only
    split
    · rfl
    · next filled =>
      by_cases word : WordText bare
      · obtain ⟨taken, -⟩ := takeWhile_word word stops
        rw [taken] at filled
        exact absurd ⟨bare, rfl, by rintro rfl; simp at filled, word⟩ other
      · rw [WordText] at word
        push Not at word
        obtain ⟨d, member, fails⟩ := word
        obtain ⟨e, later, inside, dropped⟩ := dropWhile_of_mem member (by simpa using fails) rest
        obtain ⟨shown, unequal⟩ := source.plain e (by simp [inside])
        rw [dropped, assigned?_of_head shown unequal]
        rfl
  rw [written, readDeclaration, attributes, constants, shared]
  rfl

/-! ## Names in lines -/

/-- What the declaration of a line names: a class variable, which is shared, or a constant. -/
def nameIn? (line : List Char) : Option (Bool × String) :=
  match readDeclaration (Text.trim line) with
  | .constant name _ => some (false, name)
  | .classVariable name _ => some (true, name)
  | _ => none

/-- A legible line assigns a value to what it names. -/
theorem map_target_assignmentIn? {line : List Char} (legible : (readDeclaration (Text.trim line)).Legible) :
    (assignmentIn? line).map Assignment.target = nameIn? line := by
  unfold assignmentIn? nameIn?
  cases read : readDeclaration (Text.trim line) with
  | constant name value | classVariable name value =>
    rw [read] at legible
    obtain ⟨constant, known⟩ := Except.exists_of_isOk legible
    simp [known, Except.toOption, Assignment.target]
  | _ => rfl

def declaredNames (shared : Bool) (lines : List (List Char)) : List String :=
  ((lines.filterMap nameIn?).filter (·.1 == shared)).map (·.2)

theorem names_filterMap {lines : List (List Char)}
    (legible : ∀ line ∈ lines, (readDeclaration (Text.trim line)).Legible) (shared : Bool) :
    Assignment.names shared (lines.filterMap assignmentIn?) = declaredNames shared lines := by
  induction lines with
  | nil => rfl
  | cons line rest ih =>
    obtain ⟨own, others⟩ := List.forall_mem_cons.mp legible
    have target := map_target_assignmentIn? own
    have later := ih others
    unfold Assignment.names Assignment.pairs declaredNames at later ⊢
    cases assigns : assignmentIn? line with
    | none =>
      rw [assigns] at target
      simpa [List.filterMap_cons, assigns, ← target] using later
    | some made =>
      rw [assigns] at target
      by_cases same : made.shared = shared <;>
        simpa [List.filterMap_cons, assigns, ← target, Assignment.target, same] using later

/-- The first line of an assignment, without the blanks around it. -/
theorem trim_assigning {name : String} (given : name.toList ≠ []) (shown : ∀ c ∈ name.toList, isBlank c = false)
    (text : List Char) : ∃ value : List Char, (∀ c, value.head? = some c → c = ' ') ∧
      Text.trim (name.toList ++ ' ' :: '=' :: ' ' :: text) = name.toList ++ ' ' :: '=' :: value := by
  have start : Text.trimStart (name.toList ++ ' ' :: '=' :: ' ' :: text) =
      name.toList ++ ' ' :: '=' :: ' ' :: text := by
    refine Text.trimStart_eq_self fun c head => ?_
    rw [List.head?_append_of_ne_nil _ given] at head
    exact shown c (List.mem_of_mem_head? head)
  have split : name.toList ++ ' ' :: '=' :: ' ' :: text = (name.toList ++ [' ']) ++ '=' :: ' ' :: text := by simp
  refine ⟨Text.trimEnd (' ' :: text), fun c head => ?_, ?_⟩
  · obtain ⟨rest, whole⟩ := Text.trimEnd_starts (' ' :: text)
    cases value : Text.trimEnd (' ' :: text) with
    | nil => simp [value] at head
    | cons d more =>
      rw [value] at head whole
      cases head
      exact (List.cons.inj whole).1
  · rw [Text.trim, start, split, Text.trimEnd_append (by rfl), Text.trimEnd_cons_of_shown (by decide)]
    simp

private theorem nameIn?_constant {name : String} (source : SourceConstant name) (text : List Char) :
    nameIn? (name.toList ++ ' ' :: '=' :: ' ' :: text) = if ConstantName name then some (false, name) else none := by
  obtain ⟨value, gap, trimmed⟩ := trim_assigning
    (by obtain ⟨c, rest, starts, -⟩ := source.capital; simp [starts]) (fun c member => (source.plain c member).1) text
  rw [nameIn?, trimmed]
  split_ifs with named
  · rw [readDeclaration_of_constant named gap]
  · rw [readDeclaration_of_other_constant source named]

private theorem nameIn?_classVariable {name : String} (source : SourceClassVariable name) (text : List Char) :
    nameIn? (name.toList ++ ' ' :: '=' :: ' ' :: text) =
      if ClassVariableName name then some (true, name) else none := by
  obtain ⟨value, gap, trimmed⟩ := trim_assigning
    (by obtain ⟨bare, rfl⟩ := source.signed; simp) (fun c member => (source.plain c member).1) text
  rw [nameIn?, trimmed]
  split_ifs with named
  · rw [readDeclaration_of_classVariable named gap]
  · rw [readDeclaration_of_other_classVariable source named (by rintro c ⟨⟩; decide +kernel)]

/-- A line that starts as the words for attributes do names neither. -/
theorem nameIn?_of_head {c : Char} (shown : isBlank c = false) (small : isCapital c = false) (other : c ≠ '@')
    (rest : List Char) : nameIn? (c :: rest) = none := by
  have trimmed : Text.trim (c :: rest) = c :: Text.trimEnd rest := by
    rw [Text.trim, Text.trimStart_eq_self (by simp [shown]), Text.trimEnd_cons_of_shown shown]
  have constants : constant? (c :: Text.trimEnd rest) = none := by
    rw [constant?]
    cases test : isConstantChar c <;> simp [test, small]
  have shared : classVariable? (c :: Text.trimEnd rest) = none := by
    rw [classVariable?, after?_of_ne (Ne.symm other)]
  rw [nameIn?, trimmed, readDeclaration, constants, shared]
  cases attributes : attributes? (c :: Text.trimEnd rest) with
  | none => rfl
  | some declaration =>
    obtain ⟨accessor, -, found⟩ := List.exists_of_findSome?_eq_some attributes
    split at found
    · split at found <;> cases found
      rfl
    · cases found

/-! ## Declarations of several lines -/

/-- A declaration whose lines after the first one say nothing: none of its lines is a heading or a fence, and
those after the first one name nothing. -/
structure Quiet (line : String) : Prop where
  given : line ≠ ""
  trimmed : Text.Trimmed line.toList
  unix : '\r' ∉ line.toList
  inert : ∀ other ∈ Text.lines line.toList, isFence other = false ∧ headingParts? other = none
  rest : ∀ other ∈ (Text.lines line.toList).tail, nameIn? other = none

private theorem quiet_iff {line : String} :
    Quiet line ↔ line ≠ "" ∧ Text.Trimmed line.toList ∧ '\r' ∉ line.toList ∧
      (∀ other ∈ Text.lines line.toList, isFence other = false ∧ headingParts? other = none) ∧
        ∀ other ∈ (Text.lines line.toList).tail, nameIn? other = none :=
  ⟨fun ⟨given, trimmed, unix, inert, rest⟩ => ⟨given, trimmed, unix, inert, rest⟩,
    fun ⟨given, trimmed, unix, inert, rest⟩ => ⟨given, trimmed, unix, inert, rest⟩⟩

instance (line : String) : Decidable (Quiet line) := decidable_of_iff _ quiet_iff.symm

def firstLine (text : List Char) : List Char := (Text.lines text).headD []

/-- What a quiet declaration names, its first line names. -/
theorem Quiet.filterMap_nameIn? {line : String} (quiet : Quiet line) :
    (Text.lines line.toList).filterMap nameIn? = (nameIn? (firstLine line.toList)).toList := by
  cases split : Text.lines line.toList with
  | nil => exact absurd split (Text.lines_ne_nil _)
  | cons first more =>
    have nothing : more.filterMap nameIn? = [] :=
      List.filterMap_eq_nil_iff.mpr fun other member => quiet.rest other (by simpa [split] using member)
    cases names : nameIn? first <;> simp [firstLine, split, names, nothing]

/-- The first line of an assignment starts with the name. -/
theorem firstLine_assignment {name : String} (shown : ∀ c ∈ name.toList, isBlank c = false) (value : Constant) :
    ∃ text, firstLine (assignment name value).toList = name.toList ++ ' ' :: '=' :: ' ' :: text := by
  have flat : Text.Flat (name.toList ++ [' ', '=', ' ']) := by
    intro inside
    rcases List.mem_append.mp inside with own | sign
    · exact absurd (shown '\n' own) (by decide)
    · simp at sign
  obtain ⟨first, more, -, lines⟩ := Text.lines_append_of_flat flat (sourceOf value).toList
  refine ⟨first, ?_⟩
  have written : (assignment name value).toList = name.toList ++ [' ', '=', ' '] ++ (sourceOf value).toList := by
    simp [toList_assignment]
  rw [firstLine, written, lines]
  simp

def holdsName (shared : Bool) (name : String) : Bool :=
  if shared then decide (ClassVariableName name) else decide (ConstantName name)

/-- A name as source code can give it. -/
def SourceName (shared : Bool) (name : String) : Prop :=
  if shared then SourceClassVariable name else SourceConstant name

/-- The first line of an assignment names what it assigns to, if the notation can hold the name. -/
theorem nameIn?_assignment {shared : Bool} {name : String} (source : SourceName shared name) (value : Constant) :
    nameIn? (firstLine (assignment name value).toList) =
      if holdsName shared name then some (shared, name) else none := by
  cases shared with
  | false =>
    have source : SourceConstant name := source
    obtain ⟨text, starts⟩ := firstLine_assignment (fun c member => (source.plain c member).1) value
    simp [starts, nameIn?_constant source, holdsName]
  | true =>
    have source : SourceClassVariable name := source
    obtain ⟨text, starts⟩ := firstLine_assignment (fun c member => (source.plain c member).1) value
    simp [starts, nameIn?_classVariable source, holdsName]

def linesOfAll (texts : List String) : List (List Char) := texts.flatMap fun text => Text.lines text.toList

private theorem filterMap_nameIn?_assignments {shared : Bool} {entries : Entries String Constant}
    (source : ∀ entry ∈ entries, SourceName shared entry.1)
    (quiet : ∀ entry ∈ entries, Quiet (assignment entry.1 entry.2)) :
    (linesOfAll (entries.map fun entry => assignment entry.1 entry.2)).filterMap nameIn? =
      (entries.keys.filter (holdsName shared)).map (shared, ·) := by
  induction entries with
  | nil => rfl
  | cons entry rest ih =>
    obtain ⟨own, others⟩ := List.forall_mem_cons.mp source
    obtain ⟨calm, later⟩ := List.forall_mem_cons.mp quiet
    have first := calm.filterMap_nameIn?
    rw [nameIn?_assignment own] at first
    have further := ih others later
    have keys : Entries.keys (entry :: rest) = entry.1 :: Entries.keys rest := rfl
    unfold linesOfAll at further ⊢
    rw [List.map_cons, List.flatMap_cons, List.filterMap_append, first, further, keys, List.filter_cons]
    cases holdsName shared entry.1 <;> rfl

/-- The texts of the declarations of a unit. -/
def declarationTexts (unit : RubyUnit) : List String :=
  unit.classVariables.map (fun entry => assignment entry.1 entry.2) ++
    (unit.constants.map (fun entry => assignment entry.1 entry.2) ++
      (allAttributes unit).map fun declaration => Render.attributeLine declaration.accessor declaration.names)

/-- Declarations of attributes name no values. -/
theorem filterMap_nameIn?_attributes {attributes : List Attribute}
    (quiet : ∀ declaration ∈ attributes, Quiet (Render.attributeLine declaration.accessor declaration.names)) :
    (linesOfAll (attributes.map fun declaration =>
      Render.attributeLine declaration.accessor declaration.names)).filterMap nameIn? = [] := by
  rw [linesOfAll, List.filterMap_flatMap, List.flatMap_eq_nil_iff]
  intro text member
  obtain ⟨declaration, listed, rfl⟩ := List.mem_map.mp member
  obtain ⟨rest, starts⟩ : ∃ rest,
      (Render.attributeLine declaration.accessor declaration.names).toList = ['a'] ++ rest := by
    cases word : declaration.accessor <;> simp [Render.attributeLine, Accessor.keyword]
  obtain ⟨first, more, -, lines⟩ := Text.lines_append_of_flat (show Text.Flat ['a'] by simp [Text.Flat]) rest
  have head : firstLine (Render.attributeLine declaration.accessor declaration.names).toList = 'a' :: first := by
    rw [firstLine, starts, lines]
    rfl
  rw [(quiet declaration listed).filterMap_nameIn?, head, nameIn?_of_head (by decide) (by decide) (by decide)]
  rfl

/-- The names of a unit that the notation can hold, those of one kind. -/
def heldNames (shared : Bool) (unit : RubyUnit) : List String := (unit.values shared).keys.filter (holdsName shared)

/-- The declarations of a unit name those of its names that the notation can hold. -/
theorem declaredNames_declarationTexts {unit : RubyUnit} (source : ∀ shared, ∀ name ∈ (unit.values shared).keys,
    SourceName shared name) (quiet : ∀ text ∈ declarationTexts unit, Quiet text) (shared : Bool) :
    declaredNames shared (linesOfAll (declarationTexts unit)) = heldNames shared unit := by
  simp only [declarationTexts, List.forall_mem_append, List.forall_mem_map] at quiet
  obtain ⟨classWide, constants, attributes⟩ := quiet
  have apart (first second : List String) : linesOfAll (first ++ second) = linesOfAll first ++ linesOfAll second :=
    List.flatMap_append
  have signed : ∀ entry ∈ unit.classVariables, SourceName true entry.1 :=
    fun entry member => source true entry.1 (List.mem_map_of_mem member)
  have plain : ∀ entry ∈ unit.constants, SourceName false entry.1 :=
    fun entry member => source false entry.1 (List.mem_map_of_mem member)
  rw [declaredNames, declarationTexts, apart, apart, List.filterMap_append, List.filterMap_append,
    filterMap_nameIn?_assignments signed classWide, filterMap_nameIn?_assignments plain constants,
    filterMap_nameIn?_attributes attributes]
  cases shared <;> simp [heldNames, RubyUnit.values, List.filter_map, Function.comp_def]

end LiterateRuby.Literate
