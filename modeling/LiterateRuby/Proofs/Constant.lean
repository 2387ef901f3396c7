import LiterateRuby.Constant
import LiterateRuby.Proofs.Number.Digits
import LiterateRuby.Proofs.Outcome
import Mathlib.Data.List.Infix
import Mathlib.Tactic.Common

/-! # Values inside collections

A decoded value has a text of its own, and a text inside the collection that it stands in. Numbers, truth
values, nothing, dates and collections are written alike in both places; a string is not if it holds the mark
that opens code between double quotes, which only its own text escapes. `literal_collections` says that this is
the only difference: a list or mapping is put together from the texts that its members have of their own exactly
if no such string is written between quotes in it, or an integer has too many digits for either to be written.
-/

namespace LiterateRuby

namespace Constant

/-- The mark that opens code between double quotes. -/
def codeMark : List Char := ['#', '\x7b']

def MarksCode (cs : List Char) : Prop := codeMark <:+: cs

instance (cs : List Char) : Decidable (MarksCode cs) := inferInstanceAs (Decidable (codeMark <:+: cs))

private theorem not_marksCode_of_absent {cs : List Char} (absent : '#' ∉ cs) : ¬MarksCode cs := by
  intro marks
  apply absent
  apply marks.subset
  decide

/-- Escaping against code adds characters to plain escaping, one for each mark of code. -/
theorem escapePlain_sublist (cs : List Char) :
    (Datum.escapePlain cs).Sublist (escape cs) ∧ (Datum.escapePlain cs = escape cs ↔ ¬MarksCode cs) := by
  fun_induction escape cs with
  | case1 => simp [Datum.escapePlain, MarksCode, codeMark]
  | case2 rest ih =>
    have plain : Datum.escapePlain ('#' :: '\x7b' :: rest) = '#' :: '\x7b' :: Datum.escapePlain rest := by
      simp [Datum.escapePlain]
    have marks : MarksCode ('#' :: '\x7b' :: rest) := ⟨[], rest, rfl⟩
    rw [plain]
    refine ⟨.cons _ (.cons_cons _ (.cons_cons _ ih.1)), ?_⟩
    simp [marks]
  | case3 c rest unmarked special ih =>
    have marks : MarksCode (c :: rest) ↔ MarksCode rest := by
      have unlike : c ≠ '#' := by rintro rfl; simp at special
      simp [MarksCode, codeMark, List.infix_cons_iff, unlike.symm]
    have plain : Datum.escapePlain (c :: rest) = '\\' :: c :: Datum.escapePlain rest := by
      simp [Datum.escapePlain, special]
    rw [plain, marks, ← ih.2]
    exact ⟨.cons_cons _ (.cons_cons _ ih.1), by simp⟩
  | case4 c rest unmarked ordinary ih =>
    have marks : MarksCode (c :: rest) ↔ MarksCode rest := by
      have opens : ¬codeMark <+: c :: rest := by
        rintro ⟨later, same⟩
        simp only [codeMark, List.cons_append, List.nil_append, List.cons.injEq] at same
        exact unmarked later same.1.symm same.2.symm
      simp [MarksCode, List.infix_cons_iff, opens]
    have plain : Datum.escapePlain (c :: rest) = c :: Datum.escapePlain rest := by
      simp [Datum.escapePlain, ordinary]
    rw [plain, marks, ← ih.2]
    exact ⟨.cons_cons _ ih.1, by simp⟩

/-- An integer is written if it has not too many digits. -/
theorem literal_int_eq_ok_iff {i : Int} {shown : String} :
    (int i).literal = .ok shown ↔
      (Number.natDigits i.natAbs).length ≤ Number.maxIntDigits ∧ Number.intText i = shown := by
  rw [literal, Except.mapError_eq_ok_iff, Number.writtenInt, Number.overlong?]
  split_ifs with long
  · simp [Nat.not_le.mpr long]
  · simp [Nat.not_lt.mp long]

end Constant

/-! ## Joined texts -/

/-- A text that is another one with characters taken out, anywhere. -/
def Within (short long : String) : Prop := short.toList.Sublist long.toList

private theorem Within.refl (text : String) : Within text text := List.Sublist.refl _

private theorem Within.append {first second long longer : String} (one : Within first long)
    (other : Within second longer) :
    Within (first ++ second) (long ++ longer) := by
  simpa [Within] using List.Sublist.append one other

private theorem Within.append_eq_iff {first second long longer : String} (one : Within first long)
    (other : Within second longer) :
    first ++ second = long ++ longer ↔ first = long ∧ second = longer := by
  refine ⟨fun same => ?_, fun ⟨same, alike⟩ => by rw [same, alike]⟩
  have lists : first.toList ++ second.toList = long.toList ++ longer.toList := by
    simpa using congrArg String.toList same
  have lengths := congrArg List.length lists
  rw [List.length_append, List.length_append] at lengths
  have shorter := one.length_le
  have less := other.length_le
  have parts := List.append_inj lists (by omega)
  exact ⟨String.toList_injective parts.1, String.toList_injective parts.2⟩

/-- Joined texts with characters taken out are equal only if nothing was taken out of any of them. -/
theorem intercalate_within (separator : String) {short long : List String}
    (each : List.Forall₂ Within short long) :
    Within (separator.intercalate short) (separator.intercalate long) ∧
      (separator.intercalate short = separator.intercalate long ↔ short = long) := by
  induction each with
  | nil => exact ⟨.refl _, by simp⟩
  | @cons first full rest fuller within each ih =>
    cases each with
    | nil => simpa using within
    | @cons next fullNext more fullMore _ each =>
      simp only [String.intercalate_cons_cons]
      have joint := within.append (.refl separator)
      refine ⟨joint.append ih.1, ?_⟩
      rw [joint.append_eq_iff ih.1, within.append_eq_iff (.refl separator), ih.2]
      simp

private theorem enclosed_eq_iff (opening closing : String) {short long : List String}
    (each : List.Forall₂ Within short long) :
    Datum.enclosed opening closing short = Datum.enclosed opening closing long ↔ short = long := by
  have joined := intercalate_within ", " each
  unfold Datum.enclosed
  rw [((Within.refl opening).append joined.1).append_eq_iff (.refl closing),
    (Within.refl opening).append_eq_iff joined.1, joined.2]
  simp

namespace Datum

/-! ## One value -/

private theorem absent_padded {c : Char} (other : c.isDigit = false) (width n : Nat) :
    c ∉ (padded width n).toList := by
  have unlike : c ≠ '0' := by rintro rfl; cases other
  simp [padded, Number.not_mem_natDigits other, unlike]

private theorem absent_date (date : Date) : '#' ∉ date.text.toList := by
  simp [Date.text, absent_padded]

private theorem absent_time (time : Timestamp) : '#' ∉ time.text.toList := by
  have zone (offset : Int) : '#' ∉ (Timestamp.offsetText offset).toList := by
    unfold Timestamp.offsetText
    dsimp only
    split_ifs <;> simp [absent_padded]
  unfold Timestamp.text
  cases time.offset <;> split_ifs <;> simp [absent_date, absent_padded, zone]

/-- A value whose text stands between quotes inside a collection, with a mark of code in it. -/
def Exposed : Datum → Prop
  | .str value => Constant.MarksCode value.toList
  | .bytes value => Constant.MarksCode (Text.quotedBytes value).toList
  | .tuple items => Constant.MarksCode (text (.tuple items)).toList
  | .set items => Constant.MarksCode (text (.set items)).toList
  | _ => False

private theorem plainLiteral_within (value : String) :
    Within (plainLiteral value) (Constant.stringLiteral value) ∧
      (plainLiteral value = Constant.stringLiteral value ↔ ¬Constant.MarksCode value.toList) := by
  obtain ⟨shorter, same⟩ := Constant.escapePlain_sublist value.toList
  constructor
  · simpa [Within, plainLiteral, Constant.stringLiteral] using List.Sublist.append shorter (.refl ['"'])
  · simp [plainLiteral, Constant.stringLiteral, String.ofList_inj, same]

/-- The constant that a decoded value stands for, refused if a text that it takes cannot be written. -/
def constant (value : Datum) : Except Number.TooManyDigits Constant := do
  checkWords value.worded?.toList
  return value.toConstant

/-- The name and the constant that an entry stands for. -/
def namedConstant (entry : Datum × Datum) : Except Number.TooManyDigits (String × Constant) := do
  checkWords [entry.1]
  return (entry.1.text, ← entry.2.constant)

/-- The literal of the constant that a decoded value stands for. -/
def written (value : Datum) : Except Constant.NoLiteral String := do
  (← value.constant.mapError .number).literal

/-- An integer with too many digits keeps the value around it from being written. -/
theorem written_of_overlong {value : Datum} {digits : Nat} (long : value.overlong? = some digits) :
    value.written = .error (.number ⟨digits⟩) := by
  cases value with
  | int value =>
    rw [overlong?] at long
    simp [written, constant, worded?, checkWords, overlongAll?, toConstant, Constant.literal, Number.writtenInt,
      long]
  | list | tuple | set | map => simp [written, constant, worded?, checkWords, overlongAll?, long]
  | _ => cases long

/-- Any other value has the literal of its constant. -/
theorem written_of_expressible {value : Datum} (expressible : value.overlong? = none) :
    value.written = value.toConstant.literal := by
  cases value with
  | int value => simp [written, constant, worded?, checkWords, overlongAll?]
  | _ => simp [written, constant, worded?, checkWords, overlongAll?, expressible]

/-- The text inside a collection is the text of its own with characters taken out, and the same if the value is
not exposed. -/
theorem literal_within {value : Datum} (expressible : value.overlong? = none) :
    ∃ own, value.written = .ok own ∧ Within (literal value) own ∧ (literal value = own ↔ ¬value.Exposed) := by
  have quoted (text : String) := plainLiteral_within text
  rw [written_of_expressible expressible]
  cases value with
  | int value =>
    rw [overlong?] at expressible
    exact ⟨Number.intText value, by simp [toConstant, Constant.literal, Number.writtenInt, expressible],
      by rw [literal]; exact .refl _, by simp [literal, Exposed]⟩
  | null | bool | float | list | map =>
    exact ⟨_, rfl, by rw [literal]; exact .refl _, by simp [literal, Exposed]⟩
  | str text => exact ⟨_, rfl, (quoted text).1, (quoted text).2⟩
  | date date =>
    have unmarked := Constant.not_marksCode_of_absent (absent_date date)
    exact ⟨_, rfl, (quoted date.text).1, (quoted date.text).2.trans (by simp [unmarked, Exposed])⟩
  | time time =>
    have unmarked := Constant.not_marksCode_of_absent (absent_time time)
    exact ⟨_, rfl, (quoted time.text).1, (quoted time.text).2.trans (by simp [unmarked, Exposed])⟩
  | bytes | tuple | set => exact ⟨_, rfl, (quoted _).1, (quoted _).2⟩

/-! ## Collections -/

/-- The name of a key that is written before a colon. -/
def label? : Datum → Option String
  | .str name => if isLabel name then some name else none
  | _ => none

/-- What stands before a value, made of the text that its key has of its own; a label key has none. -/
def keyText (key : Datum) : Except Constant.NoLiteral String :=
  match label? key with
  | some name => return name ++ ": "
  | none => return (← key.written) ++ " => "

/-- An entry made of the texts that its key and its value have of their own. -/
def entryText (entry : Datum × Datum) : Except Constant.NoLiteral String :=
  return (← keyText entry.1) ++ (← entry.2.written)

/-- An entry whose value, or whose key where it is no label, is exposed. -/
def ExposedEntry (entry : Datum × Datum) : Prop :=
  entry.2.Exposed ∨ label? entry.1 = none ∧ entry.1.Exposed

private theorem literals_within {items : List Datum} (expressible : overlongAll? items = none) :
    ∃ texts, items.mapM written = .ok texts ∧ List.Forall₂ Within (literals items) texts ∧
      (literals items = texts ↔ ∀ item ∈ items, ¬item.Exposed) := by
  induction items with
  | nil => exact ⟨[], rfl, .nil, by simp [literals]⟩
  | cons item rest ih =>
    obtain ⟨here, later⟩ := Option.or_eq_none_iff.mp expressible
    obtain ⟨first, own, within, same⟩ := literal_within here
    obtain ⟨others, all, each, alike⟩ := ih later
    refine ⟨first :: others, by rw [List.mapM_cons, own, all]; rfl, .cons within each, ?_⟩
    rw [literals, List.cons.injEq, same, alike, List.forall_mem_cons]

private theorem mapM_written_of_overlong {items : List Datum} {digits : Nat}
    (long : overlongAll? items = some digits) :
    items.mapM written = .error (.number ⟨digits⟩) := by
  induction items with
  | nil => cases long
  | cons item rest ih =>
    rw [List.mapM_cons]
    rcases Option.or_eq_some_iff.mp long with first | ⟨here, later⟩
    · rw [written_of_overlong first]
      rfl
    · obtain ⟨own, writes, _⟩ := literal_within here
      rw [writes, ih later]
      rfl

/-- What stands before the value of an entry inside a mapping. -/
def keyLiteral (key : Datum) : String :=
  match label? key with
  | some name => name ++ ": "
  | none => literal key ++ " => "

private theorem entryLiterals_cons (key value : Datum) (rest : List (Datum × Datum)) :
    entryLiterals ((key, value) :: rest) = (keyLiteral key ++ literal value) :: entryLiterals rest := by
  cases key with
  | str name => by_cases label : isLabel name <;> simp [entryLiterals, keyLiteral, label?, label, literal]
  | _ => rfl

private theorem overlong?_of_label {key : Datum} {name : String} (label : label? key = some name) :
    key.overlong? = none := by
  cases key with
  | str => rfl
  | _ => cases label

private theorem keyText_of_overlong {key : Datum} {digits : Nat} (long : key.overlong? = some digits) :
    keyText key = .error (.number ⟨digits⟩) := by
  unfold keyText
  cases label : label? key with
  | some name =>
    rw [overlong?_of_label label] at long
    cases long
  | none =>
    dsimp only
    rw [written_of_overlong long]
    rfl

private theorem keyLiteral_within {key : Datum} (expressible : key.overlong? = none) :
    ∃ own, keyText key = .ok own ∧ Within (keyLiteral key) own ∧
      (keyLiteral key = own ↔ ¬(label? key = none ∧ key.Exposed)) := by
  unfold keyText keyLiteral
  cases label? key with
  | some name => exact ⟨_, rfl, .refl _, by simp⟩
  | none =>
    obtain ⟨own, writes, within, same⟩ := literal_within expressible
    dsimp only
    rw [writes]
    refine ⟨own ++ " => ", rfl, within.append (.refl _), ?_⟩
    rw [within.append_eq_iff (.refl _), same]
    simp

private theorem entryLiteral_within {entry : Datum × Datum} (key : entry.1.overlong? = none)
    (value : entry.2.overlong? = none) :
    ∃ own, entryText entry = .ok own ∧ Within (keyLiteral entry.1 ++ literal entry.2) own ∧
      (keyLiteral entry.1 ++ literal entry.2 = own ↔ ¬ExposedEntry entry) := by
  obtain ⟨before, writesKey, withinKey, sameKey⟩ := keyLiteral_within key
  obtain ⟨shown, writes, within, same⟩ := literal_within value
  refine ⟨before ++ shown, by rw [entryText, writesKey, writes]; rfl, withinKey.append within, ?_⟩
  rw [withinKey.append_eq_iff within, same, sameKey, ExposedEntry, not_or, and_comm]

private theorem entryLiterals_within {entries : List (Datum × Datum)}
    (expressible : overlongEntries? entries = none) :
    ∃ texts, entries.mapM entryText = .ok texts ∧ List.Forall₂ Within (entryLiterals entries) texts ∧
      (entryLiterals entries = texts ↔ ∀ entry ∈ entries, ¬ExposedEntry entry) := by
  induction entries with
  | nil => exact ⟨[], rfl, .nil, by simp [entryLiterals]⟩
  | cons entry rest ih =>
    obtain ⟨here, later⟩ := Option.or_eq_none_iff.mp expressible
    obtain ⟨key, value⟩ := Option.or_eq_none_iff.mp here
    obtain ⟨first, own, within, same⟩ := entryLiteral_within key value
    obtain ⟨others, all, each, alike⟩ := ih later
    rw [entryLiterals_cons]
    refine ⟨first :: others, by rw [List.mapM_cons, own, all]; rfl, .cons within each, ?_⟩
    rw [List.cons.injEq, same, alike, List.forall_mem_cons]

private theorem mapM_entryText_of_overlong {entries : List (Datum × Datum)} {digits : Nat}
    (long : overlongEntries? entries = some digits) : entries.mapM entryText = .error (.number ⟨digits⟩) := by
  induction entries with
  | nil => cases long
  | cons entry rest ih =>
    rw [List.mapM_cons]
    rcases Option.or_eq_some_iff.mp long with first | ⟨here, later⟩
    · rcases Option.or_eq_some_iff.mp first with key | ⟨key, value⟩
      · rw [entryText, keyText_of_overlong key]
        rfl
      · obtain ⟨before, writes, _⟩ := keyLiteral_within key
        rw [entryText, writes, written_of_overlong value]
        rfl
    · obtain ⟨key, value⟩ := Option.or_eq_none_iff.mp here
      obtain ⟨own, writes, _⟩ := entryLiteral_within key value
      rw [writes, ih later]
      rfl

/-- The items of a list all have texts of their own exactly if no integer among them is too long, and the list is
made of these texts, or fails as they do, exactly if this is not so or no item is exposed. -/
theorem list_written_eq_iff (items : List Datum) :
    ((∃ texts, items.mapM written = .ok texts) ↔ overlongAll? items = none) ∧
      ((list items).written = (items.mapM written).map (enclosed "[" "]") ↔
        overlongAll? items ≠ none ∨ ∀ item ∈ items, ¬item.Exposed) := by
  cases expressible : overlongAll? items with
  | some digits =>
    rw [mapM_written_of_overlong expressible, written_of_overlong (by rwa [overlong?])]
    simp [Except.map]
  | none =>
    obtain ⟨texts, own, within, same⟩ := literals_within expressible
    rw [own, written_of_expressible (by rwa [overlong?]), toConstant, Constant.literal, literal, Except.map,
      Except.ok.injEq, enclosed_eq_iff _ _ within, same]
    simp

/-- The same for the entries of a mapping that has some. -/
theorem map_written_eq_iff (entry : Datum × Datum) (entries : List (Datum × Datum)) :
    ((∃ texts, (entry :: entries).mapM entryText = .ok texts) ↔ overlongEntries? (entry :: entries) = none) ∧
      ((map (entry :: entries)).written = ((entry :: entries).mapM entryText).map (enclosed "\x7b " " \x7d") ↔
        overlongEntries? (entry :: entries) ≠ none ∨ ∀ member ∈ entry :: entries, ¬ExposedEntry member) := by
  cases expressible : overlongEntries? (entry :: entries) with
  | some digits =>
    rw [mapM_entryText_of_overlong expressible, written_of_overlong (by rwa [overlong?])]
    simp [Except.map]
  | none =>
    obtain ⟨texts, own, within, same⟩ := entryLiterals_within expressible
    rw [own, written_of_expressible (by rwa [overlong?]), ← same, ← enclosed_eq_iff "\x7b " " \x7d" within,
      toConstant, Constant.literal, literal, Except.map, Except.ok.injEq, entryLiterals_cons]
    simp

/-- A list is written as the texts that its items have of their own exactly if no item is exposed, and a mapping
with entries as the texts that its values and keys have of their own exactly if none of these is. Where an integer
has too many digits, none of these texts is there, and the collection fails as its members do. -/
theorem literal_collections (items : List Datum) (entry : Datum × Datum) (entries : List (Datum × Datum)) :
    (((∃ texts, items.mapM written = .ok texts) ↔ overlongAll? items = none) ∧
      ((list items).written = (items.mapM written).map (enclosed "[" "]") ↔
        overlongAll? items ≠ none ∨ ∀ item ∈ items, ¬item.Exposed)) ∧
    ((∃ texts, (entry :: entries).mapM entryText = .ok texts) ↔ overlongEntries? (entry :: entries) = none) ∧
      ((map (entry :: entries)).written = ((entry :: entries).mapM entryText).map (enclosed "\x7b " " \x7d") ↔
        overlongEntries? (entry :: entries) ≠ none ∨ ∀ member ∈ entry :: entries, ¬ExposedEntry member) :=
  ⟨list_written_eq_iff items, map_written_eq_iff entry entries⟩

/-- A string with a mark of code is escaped on its own, and not inside a list. -/
theorem mark_kept_in_list :
    (Datum.str "#\x7bx\x7d").written = .ok "\"\\#\x7bx\x7d\"" ∧
      (Datum.list [.str "#\x7bx\x7d"]).written = .ok "[\"#\x7bx\x7d\"]" := by
  decide

end Datum

end LiterateRuby
