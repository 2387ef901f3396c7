import LiterateRuby.Proofs.DataFormat
import LiterateRuby.Proofs.Literate.Units

/-! # Front matter is read as it is written

The lines of front matter are split from the text after them, if no line of the block is a delimiter
(`split_frontMatterLines`). What the block loads as is taken from the data format (`DataFormat.Loads`): then it
gives the required libraries and describes the first unit (`describes_first`).
-/

namespace LiterateRuby.Literate

open DataFormat (Inner Item Loads hyphens)
open FrontMatter (namesIn entriesIn isDelimiter)

/-! ## Splitting -/

/-- What a block of items says. -/
def metadataOf (items : List (String × Item)) : Metadata := items.map fun (name, value) => (name, value.datum)

private theorem isDelimiter_of_inner {line : List Char} (inner : Inner line) : isDelimiter line = false := by
  have absent : Text.after? ['-', '-', '-'] line = none := by
    rw [Option.eq_none_iff_forall_ne_some]
    intro rest found
    exact inner.2 ⟨rest, (Text.after?_eq_some_iff.mp found).symm⟩
  unfold isDelimiter
  rw [absent]

private theorem isDelimiter_hyphens : isDelimiter hyphens = true := by decide

private theorem overlong?_datum (item : Item) : item.datum.overlong? = none := by
  cases item with
  | text value => rfl
  | texts values =>
    rw [Item.datum, Datum.overlong?, overlongAll?_eq_none_iff]
    intro datum member
    obtain ⟨value, _, rfl⟩ := List.mem_map.mp member
    rfl
  | entries pairs =>
    rw [Item.datum, Datum.overlong?, overlongEntries?_eq_none_iff]
    intro entry member
    obtain ⟨pair, _, rfl⟩ := List.mem_map.mp member
    exact ⟨rfl, rfl⟩

/-- What is written of a document has no integers. -/
theorem expressible_metadataOf (items : List (String × Item)) : Expressible (metadataOf items) := by
  intro entry member
  obtain ⟨item, _, rfl⟩ := List.mem_map.mp member
  exact overlong?_datum item.2

private theorem keys_metadataOf (items : List (String × Item)) : (metadataOf items).keys = Entries.keys items := by
  simp [metadataOf, Entries.keys, Function.comp_def]

private theorem ofBlock_write [DataFormat] {items : List (String × Item)} (once : (Entries.keys items).Nodup)
    (loads : Loads items) :
    FrontMatter.ofBlock (Text.unlines ((DataFormat.write items).map String.toList)) = .ok (metadataOf items) := by
  have worded : Datum.checkWords ((items.map fun (name, value) => (Datum.str name, value.datum)).map (·.1)) =
      .ok ⟨⟩ := by
    refine checkWords_eq_ok_iff.mpr fun key member => ?_
    rw [List.map_map] at member
    obtain ⟨item, _, rfl⟩ := List.mem_map.mp member
    rfl
  have kept : Entries.ofPairs (metadataOf items) = metadataOf items :=
    Entries.ofPairs_of_nodup (by rwa [keys_metadataOf])
  unfold FrontMatter.ofBlock
  rw [loads.decoded, Except.mapError_ok, Except.ok_bind, FrontMatter.ofDatum, worded, Except.mapError_ok,
    Except.ok_bind, List.map_map]
  exact congrArg Except.ok kept

/-- Written front matter is split from the lines after it. -/
theorem split_frontMatterLines [DataFormat] {items : List (String × Item)} (given : items ≠ [])
    (once : (Entries.keys items).Nodup) (loads : Loads items) {body : List (List Char)}
    (flat : ∀ line ∈ body, Text.Flat line) :
    FrontMatter.split (Text.unlines ((frontMatterLines items).map String.toList ++ body)) =
      .ok ⟨metadataOf items, Text.unlines body, true⟩ := by
  have block : (frontMatterLines items).map String.toList ++ body =
      hyphens :: ((DataFormat.write items).map String.toList ++ hyphens :: body) := by
    simp [frontMatterLines, given, hyphens]
  have inner : ∀ line ∈ (DataFormat.write items).map String.toList, Inner line := by
    intro line member
    obtain ⟨text, listed, rfl⟩ := List.mem_map.mp member
    exact loads.inner text listed
  have lines : Text.lines (Text.unlines ((frontMatterLines items).map String.toList ++ body)) =
      hyphens :: ((DataFormat.write items).map String.toList ++ hyphens :: body) := by
    have hyphens : Text.Flat hyphens := by
      unfold Text.Flat hyphens
      decide
    rw [block]
    apply Text.lines_unlines (by simp)
    intro line member
    rcases List.mem_cons.mp member with rfl | member
    · exact hyphens
    · rcases List.mem_append.mp member with written | member
      · exact (inner line written).1.flat
      · rcases List.mem_cons.mp member with rfl | after
        · exact hyphens
        · exact flat line after
  have open' : ∀ line ∈ (DataFormat.write items).map String.toList, (!isDelimiter line) = true := fun line member => by
    rw [isDelimiter_of_inner (inner line member)]
    rfl
  have stops : ¬(!isDelimiter hyphens) = true := by simp [isDelimiter_hyphens]
  have left : (hyphens :: body).dropWhile (fun line => !isDelimiter line) =
      hyphens :: body := List.dropWhile_cons_of_neg stops
  have taken : (hyphens :: body).takeWhile (fun line => !isDelimiter line) = [] :=
    List.takeWhile_cons_of_neg stops
  unfold FrontMatter.split
  rw [lines]
  dsimp only
  rw [if_pos isDelimiter_hyphens, List.dropWhile_append_of_pos open', List.takeWhile_append_of_pos open',
    left, taken, List.append_nil]
  dsimp only
  rw [ofBlock_write once loads]
  rfl

/-- Front matter, if there is any, is split from lines that do not start as front matter does. -/
theorem split_beforeLines [DataFormat] {items : List (String × Item)} (once : (Entries.keys items).Nodup)
    (loads : items ≠ [] → Loads items) {first : List Char} {more : List (List Char)}
    (plain : isDelimiter first = false) (flat : ∀ line ∈ first :: more, Text.Flat line) :
    ∃ front blank, (blank = [] ∨ blank = [[]]) ∧ front.metadata = metadataOf items ∧
      Text.lines front.body = blank ++ first :: more ∧
      FrontMatter.split (Text.unlines (if items = [] then first :: more
        else (frontMatterLines items).map String.toList ++ [] :: first :: more)) = .ok front := by
  split
  · next empty =>
    have lines := Text.lines_unlines (List.cons_ne_nil first more) flat
    refine ⟨⟨[], Text.unlines (first :: more), false⟩, [], .inl rfl, by rw [empty]; rfl, lines, ?_⟩
    unfold FrontMatter.split
    rw [lines]
    dsimp only
    rw [if_neg (by simp [plain])]
  · next given =>
    have flat : ∀ line ∈ [] :: first :: more, Text.Flat line := by
      rintro line (_ | ⟨_, member⟩)
      · exact List.not_mem_nil
      · exact flat line member
    exact ⟨_, [[]], .inr rfl, rfl, Text.lines_unlines (List.cons_ne_nil _ _) flat,
      split_frontMatterLines given once (loads given) flat⟩

/-! ## What front matter says of a document -/

def textsOf (values : List String) : Option Item := if values.isEmpty then none else some (.texts values)

def pairsOf (values : Entries String String) : Option Item := if values.isEmpty then none else some (.entries values)

/-- Everything that front matter can say of a document and its first unit. -/
def frontParts (document : Document) (unit : RubyUnit) : Entries String (Option Item) :=
  [("require", textsOf document.requires), ("inherits_from", unit.superclass?.map .text),
    ("include", textsOf unit.included), ("extend", textsOf unit.extended), ("aliases", pairsOf unit.aliases),
    ("alias_method", pairsOf unit.aliasMethods)]

def givenParts (parts : Entries String (Option Item)) : Entries String Item :=
  parts.filterMap fun (name, value) => value.map (name, ·)

private theorem frontMatter_eq (document : Document) (unit : RubyUnit) :
    frontMatter document (some unit) = givenParts (frontParts document unit) := by
  have texts (name : String) (values : List String) :
      (if values.isEmpty then [] else [(name, Item.texts values)]) =
        ((textsOf values).map fun item => (name, item)).toList := by
    unfold textsOf
    split <;> rfl
  have pairs (name : String) (values : Entries String String) :
      (if values.isEmpty then [] else [(name, Item.entries values)]) =
        ((pairsOf values).map fun item => (name, item)).toList := by
    unfold pairsOf
    split <;> rfl
  unfold frontMatter
  dsimp only
  simp only [texts, pairs]
  unfold givenParts frontParts
  simp only [List.filterMap_cons, List.filterMap_nil]
  cases textsOf document.requires <;> cases unit.superclass? <;> cases textsOf unit.included <;>
    cases textsOf unit.extended <;> cases pairsOf unit.aliases <;> cases pairsOf unit.aliasMethods <;> rfl

private theorem keys_givenParts (parts : Entries String (Option Item)) :
    List.Sublist (givenParts parts).keys parts.keys := by
  induction parts with
  | nil => exact List.Sublist.slnil
  | cons entry rest ih =>
    obtain ⟨name, value⟩ := entry
    cases value with
    | none => exact ih.cons name
    | some value => exact ih.cons_cons name

/-- A given part is found, whatever the others are. -/
theorem get?_metadataOf {parts : Entries String (Option Item)} (once : parts.keys.Nodup) (key : String) :
    (metadataOf (givenParts parts)).get? key = ((parts.get? key).join).map Item.datum := by
  induction parts with
  | nil => rfl
  | cons entry rest ih =>
    obtain ⟨name, value⟩ := entry
    obtain ⟨fresh, later⟩ := List.nodup_cons.mp once
    have below := ih later
    rw [Entries.get?_cons]
    by_cases here : key = name
    · subst here
      rw [if_pos (by simp)]
      cases value with
      | none =>
        have absent : Entries.get? rest key = none := Entries.get?_eq_none_iff.mpr fresh
        rw [absent] at below
        exact below
      | some value => simp [givenParts, metadataOf, Entries.get?]
    · rw [if_neg (by simpa using here), ← below]
      cases value with
      | none => rfl
      | some value =>
        have other : (key == name) = false := by simpa using here
        simp [givenParts, metadataOf, Entries.get?, List.lookup_cons, other]

private theorem nodup_keys_frontParts (document : Document) (unit : RubyUnit) :
    (frontParts document unit).keys.Nodup := by
  have names : (["require", "inherits_from", "include", "extend", "aliases", "alias_method"] : List String).Nodup := by
    decide
  exact names

/-- The keys of front matter are among those of all that it can say, in their order. -/
theorem keys_frontMatter (document : Document) (first : Option RubyUnit) :
    List.Sublist (Entries.keys (frontMatter document first))
      ["require", "inherits_from", "include", "extend", "aliases", "alias_method"] := by
  cases first with
  | none => by_cases empty : document.requires.isEmpty = true <;> simp [frontMatter, empty, Entries.keys]
  | some unit =>
    rw [frontMatter_eq]
    exact keys_givenParts (frontParts document unit)

theorem nodup_keys_frontMatter (document : Document) (first : Option RubyUnit) :
    (Entries.keys (frontMatter document first)).Nodup :=
  (keys_frontMatter document first).nodup (by decide)

/-- The metadata that is read again from what is written of a document. -/
def frontMetadata (document : Document) (unit : RubyUnit) : Metadata :=
  metadataOf (frontMatter document (some unit))

private theorem get?_frontMetadata (document : Document) (unit : RubyUnit) (key : String) :
    (frontMetadata document unit).get? key = (((frontParts document unit).get? key).join).map Item.datum := by
  rw [frontMetadata, frontMatter_eq]
  exact get?_metadataOf (nodup_keys_frontParts document unit) key

private theorem namesIn_textsOf (values : List String) : namesIn ((textsOf values).map Item.datum) = values := by
  unfold textsOf
  split
  · next empty => rw [List.isEmpty_iff.mp empty]; rfl
  · rw [Option.map_some, Item.datum, namesIn, List.filter_eq_self.mpr, List.map_map]
    · exact List.map_id values
    · intro item member
      obtain ⟨value, _, rfl⟩ := List.mem_map.mp member
      rfl

private theorem entriesIn_pairsOf (values : Entries String String) :
    (entriesIn ((pairsOf values).map Item.datum)).map (fun (new, old) => (new.text, old.text)) = values := by
  unfold pairsOf
  split
  · next empty => rw [List.isEmpty_iff.mp empty]; rfl
  · simp only [Option.map_some, Item.datum, entriesIn, List.map_map]
    exact List.map_id values

/-- Front matter gives the required libraries. -/
theorem namesIn_require (document : Document) (unit : RubyUnit) :
    namesIn ((frontMetadata document unit).get? "require") = document.requires := by
  rw [get?_frontMetadata]
  exact namesIn_textsOf document.requires

/-- Front matter describes the first unit. -/
theorem describes_first (document : Document) (unit : RubyUnit) : Describes (frontMetadata document unit) unit := by
  have absent : ∀ key ∉ (frontParts document unit).keys, (frontMetadata document unit).get? key = none := by
    intro key fresh
    rw [get?_frontMetadata, Entries.get?_eq_none_iff.mpr fresh]
    rfl
  have others : ∀ key ∈ (["type", "attr", "attr_reader", "attr_writer", "attr_accessor", "constants",
      "class_variables"] : List String),
      key ∉ (["require", "inherits_from", "include", "extend", "aliases", "alias_method"] : List String) := by
    decide
  constructor
  · exact expressible_metadataOf _
  · exact absent "type" (others "type" (by simp))
  · rw [get?_frontMetadata]
    have found : (frontParts document unit).get? "inherits_from" = some (unit.superclass?.map .text) := rfl
    rw [found, Option.join_some, Option.map_map]
    rfl
  · rw [get?_frontMetadata]
    exact namesIn_textsOf unit.included
  · rw [get?_frontMetadata]
    exact namesIn_textsOf unit.extended
  · rw [get?_frontMetadata]
    exact entriesIn_pairsOf unit.aliases
  · rw [get?_frontMetadata]
    exact entriesIn_pairsOf unit.aliasMethods
  · intro key member
    exact absent key (others key (List.mem_cons_of_mem _ member))

end LiterateRuby.Literate
