import LiterateRuby.Proofs.Literate.Accepted
import LiterateRuby.Proofs.Literate.Described

/-! # Front matter that is written and read again

A reader applies front matter to the unit that a text opens first, and the writer writes the front matter of
the first unit that is more than a namespace. These are the same unit unless a module that was opened only
to hold the first one is defined later. Where they are the same, the matter of the unit comes back if its
heading names it again; where they differ, it is dropped with a warning (`read_write_matter`).
-/

namespace LiterateRuby.Literate

open FrontMatter (namesIn entriesIn)
open Text (isBlank Unindented)

/-! ## Headings that name their units -/

/-- A unit whose title is one line and names it again. -/
structure NamesAgain (unit : RubyUnit) : Prop where
  unbroken : Text.Unbroken (unitTitle unit).toList
  named : unitKey (Text.trimEnd (unitTitle unit).toList) = unit.qualifiedName

/-- A unit at a path of bare names is named again. -/
theorem namesAgain_of_bare {unit : RubyUnit} (bare : ∀ name ∈ unit.path, BareName name) : NamesAgain unit := by
  obtain ⟨trimmed, _, unbroken⟩ := titled_unitTitle bare
  exact ⟨unbroken, by rw [Text.trimEnd_eq_self trimmed.2, unitKey_unitTitle bare]⟩

/-- A title that says its kind starts with the word for it, and the name stands behind a blank. -/
theorem exists_name_of_kindInTitle? {title rest : List Char} {kind : RubyUnit.Kind}
    (found : kindInTitle? title = some (kind, rest)) :
    ∃ word gap more, title = word ++ gap :: more ∧ rest = Text.trim more := by
  obtain ⟨word, _, found⟩ := List.exists_of_findSome?_eq_some found
  split at found
  · next gap more after =>
    split at found
    · cases found
      exact ⟨_, gap, more, Text.after?_eq_some_iff.mp after, rfl⟩
    · cases found
  · cases found

theorem length_of_kindInTitle? {title rest : List Char} {kind : RubyUnit.Kind}
    (found : kindInTitle? title = some (kind, rest)) : rest.length < title.length := by
  obtain ⟨word, gap, more, rfl, rfl⟩ := exists_name_of_kindInTitle? found
  have shorter := (Text.trim_within more).length_le
  simp only [List.length_append, List.length_cons]
  omega

/-- A name is not longer than the text that it is read from. -/
theorem length_unitKey_le (title : List Char) :
    (unitKey title).toList.length ≤ (((kindInTitle? title).map (·.2)).getD title).length := by
  rw [unitKey, unitPath, toList_joinScope, List.map_map]
  have trimmed : String.toList ∘ trimmedText = Text.trim := funext fun _ => String.toList_ofList
  rw [trimmed]
  refine (Text.length_intercalate_trim_le _ _).trans ?_
  rw [Text.intercalate_splitScope]

/-- The title of a class that names it again does not say its kind. -/
theorem NamesAgain.kindInTitle?_eq {unit : RubyUnit} (again : NamesAgain unit) (kind : unit.kind = .cls) :
    kindInTitle? (Text.trimEnd (unitTitle unit).toList) = none := by
  have whole : unitTitle unit = unit.qualifiedName := by rw [unitTitle, kind, RubyUnit.qualifiedName]
  have named := again.named
  rw [whole] at named ⊢
  have within := (Text.trimEnd_starts unit.qualifiedName.toList).length_le
  cases said : kindInTitle? (Text.trimEnd unit.qualifiedName.toList) with
  | none => rfl
  | some head =>
    have short := length_of_kindInTitle? said
    have least := length_unitKey_le (Text.trimEnd unit.qualifiedName.toList)
    rw [said, named] at least
    simp only [Option.map_some, Option.getD_some] at least
    omega

/-! ## What is read again -/

/-- The qualified name of the unit that a text opens first. -/
def firstOpened [DataFormat] (filename : Option String) (text : String) : Option String :=
  (stretchesOf filename text).head?.map Stretch.unit

private theorem describedPairs_of_nodup {metadata : Metadata} {key : String} {pairs : Entries String String}
    (once : pairs.keys.Nodup)
    (said : (entriesIn (metadata.get? key)).map (fun (new, old) => (new.text, old.text)) = pairs) :
    describedPairs metadata key = pairs := by
  rw [describedPairs, said, Entries.ofPairs_of_nodup once]

/-- Front matter that describes a unit gives its matter to a unit that may have a superclass if this one
does. -/
theorem Describes.describedMatter_eq {metadata : Metadata} {unit : RubyUnit} (describes : Describes metadata unit)
    (mixed : PlainMixins unit) {kind : RubyUnit.Kind} (kinded : unit.superclass? ≠ none → kind = .cls) :
    describedMatter metadata kind = unit.matter := by
  have superclass : (describedMatter metadata kind).superclass = unit.superclass? := by
    unfold describedMatter
    rw [describes.superclass]
    cases given : unit.superclass? with
    | none => cases kind <;> rfl
    | some name =>
      rw [kinded (by simp [given])]
      simp [Option.filter, Datum.isGiven, Datum.text, (RubyUnit.of_superclass? given).2]
  rw [RubyUnit.matter, ← superclass]
  unfold describedMatter
  rw [describes.included, describes.extended, Text.distinct_of_nodup mixed.included,
    Text.distinct_of_nodup mixed.extended, describedPairs_of_nodup mixed.aliases describes.aliases,
    describedPairs_of_nodup mixed.aliasMethods describes.aliasMethods]

/-- What front matter describes has each name once. -/
theorem mixins_of_described {metadata : Metadata} {kind : RubyUnit.Kind} {unit : RubyUnit}
    (flawless : unit.flaw? = none)
    (described : unit.matter = describedMatter metadata kind ∨ unit.matter = {}) : PlainMixins unit := by
  have apart := (RubyUnit.flaw?_eq_none_iff.mp flawless).2.2.1
  rcases described with described | undescribed
  · have included : unit.included = _ := congrArg Matter.included described
    have extended : unit.extended = _ := congrArg Matter.extended described
    have aliases : unit.aliases = _ := congrArg Matter.aliases described
    have aliasMethods : unit.aliasMethods = _ := congrArg Matter.aliasMethods described
    exact ⟨included ▸ Text.nodup_distinct _, extended ▸ Text.nodup_distinct _,
      aliases ▸ Entries.nodup_keys_ofPairs _, aliasMethods ▸ Entries.nodup_keys_ofPairs _, apart⟩
  · have included : unit.included = [] := congrArg Matter.included undescribed
    have extended : unit.extended = [] := congrArg Matter.extended undescribed
    have aliases : unit.aliases = [] := congrArg Matter.aliases undescribed
    have aliasMethods : unit.aliasMethods = [] := congrArg Matter.aliasMethods undescribed
    exact ⟨by simp [included], by simp [extended], by simp [aliases], by simp [aliasMethods], apart⟩

/-- The first section of a text starts its first stretch. -/
theorem head?_stretchesOf [DataFormat] {text : String} {part : Section}
    (headed : (sectionsOf text).head? = some part)
    (level : part.heading.level = 1) (filename : Option String) :
    ∃ stretch, (stretchesOf filename text).head? = some stretch ∧ stretch.title = part.heading.title := by
  unfold sectionsOf at headed
  unfold stretchesOf
  split at headed
  · next front splits =>
    obtain ⟨rest, parts⟩ := List.head?_eq_some_iff.mp headed
    have heads : (headings (scan false (Text.lines front.body))).any (·.level == 1) = true :=
      List.any_eq_true.mpr ⟨part.heading, mem_headings_of_section (List.mem_of_mem_head? headed), by simp [level]⟩
    rw [splits]
    dsimp only
    rw [if_pos heads, parts, stretches, if_pos level]
    exact ⟨_, rfl, rfl⟩
  · cases headed

private theorem read_empty [DataFormat] (filename : Option String) :
    (read filename "").result = .error .empty := rfl

/-- Front matter that only names required libraries describes nothing. -/
theorem describedMatter_require (libraries : List String) (kind : RubyUnit.Kind) :
    describedMatter (metadataOf [("require", .texts libraries)]) kind = {} := by
  cases kind <;> rfl

/-- Where front matter describes nothing, no unit has any matter. -/
theorem matter_of_undescribed [DataFormat] {filename : Option String} {text : String} {document : Document}
    (success : (read filename text).result = .ok document) {front : FrontMatter}
    (splits : FrontMatter.split (Text.trim (Text.unixLines text.toList)) = .ok front)
    (nothing : ∀ kind, describedMatter front.metadata kind = {}) : ∀ unit ∈ document.units, unit.matter = {} := by
  intro unit member
  by_cases later : firstOpened filename text = some unit.qualifiedName
  · obtain ⟨stretch, first, named⟩ := Option.map_eq_some_iff.mp later
    rw [((matter_of_first success splits first).2 unit member named.symm).2, nothing]
  · exact matter_of_later success member later

private theorem matter_eq_empty_iff {unit : RubyUnit} :
    unit.matter = {} ↔ unit.superclass? = none ∧ unit.hasMixins = false ∧ unit.hasAliases = false := by
  simp [RubyUnit.matter, RubyUnit.hasMixins, RubyUnit.hasAliases, and_assoc]

/-- A unit with matter has something to drop. -/
theorem exists_droppedParts {unit : RubyUnit} (given : unit.matter ≠ {}) :
    ∃ parts, Warning.partsDropped parts unit.qualifiedName ∈ droppedParts unit := by
  rw [ne_eq, matter_eq_empty_iff] at given
  unfold droppedParts
  cases superclass : unit.superclass? <;> cases mixins : unit.hasMixins <;>
    cases aliases : unit.hasAliases <;> simp_all

/-- What front matter could only say of the first unit is dropped with a warning. -/
theorem warns_of_matter [DataFormat] (settings : RenderSettings) {document : Document} {unit : RubyUnit}
    (listed : unit ∈ (writtenUnits document).tail) (given : unit.matter ≠ {}) :
    ∃ parts, Warning.partsDropped parts unit.qualifiedName ∈ (write settings document).warnings := by
  obtain ⟨parts, dropped⟩ := exists_droppedParts given
  have filled : (writtenUnits document).isEmpty = false := by
    cases units : writtenUnits document with
    | nil =>
      rw [units] at listed
      cases listed
    | cons first rest => rfl
  refine ⟨parts, ?_⟩
  unfold write
  rw [← writtenUnits]
  dsimp only
  rw [filled, Bool.false_and, if_neg Bool.false_ne_true]
  refine List.mem_append_left _ (List.mem_flatMap.mpr ⟨unit, ?_, dropped⟩)
  rwa [List.drop_one]

/-- A unit with matter is more than a namespace. -/
theorem mem_writtenUnits_of_matter {document : Document} {unit : RubyUnit} (member : unit ∈ document.units)
    (flawless : unit.flaw? = none) (given : unit.matter ≠ {}) : unit ∈ writtenUnits document := by
  refine List.mem_filter.mpr ⟨member, ?_⟩
  have allowed := (RubyUnit.flaw?_eq_none_iff.mp flawless).2.2.2
  rw [RubyUnit.AllowsNature] at allowed
  rw [RubyUnit.isNamespaceOnly]
  cases nature : unit.nature with
  | cls superclass => rfl
  | mod namespaceOnly =>
    rw [nature] at allowed
    cases namespaceOnly with
    | false => rfl
    | true =>
      have bare := allowed rfl
      simp only [RubyUnit.hasOwnContent, Bool.or_eq_false_iff] at bare
      exact absurd (matter_eq_empty_iff.mpr ⟨by rw [RubyUnit.superclass?, nature], bare.1.2, bare.2⟩) given

/-! ## The round trip -/

/-- The first unit that is written comes back with its matter if it is the one that the text opened first and
its title names it again. If it is another one, then no unit that is read again has any matter. Whatever
matter does not come back for this reason is dropped with a warning. -/
theorem read_write_matter [DataFormat] {filename again : Option String}
    {settings : RenderSettings} {text written : String} {document reread : Document}
    (success : (read filename text).result = .ok document)
    (writes : (write settings document).result = .ok written)
    (loads : frontMatter document (writtenUnits document).head? ≠ [] →
      DataFormat.Loads (frontMatter document (writtenUnits document).head?))
    (succeeds : (read again written).result = .ok reread) :
    (∀ unit, (writtenUnits document).head? = some unit → firstOpened filename text = some unit.qualifiedName →
        NamesAgain unit →
          ∃ twin ∈ reread.units, twin.qualifiedName = unit.qualifiedName ∧ twin.matter = unit.matter) ∧
      (firstOpened filename text ≠ (writtenUnits document).head?.map (·.qualifiedName) →
        (∀ twin ∈ reread.units, twin.matter = {}) ∧
          ∀ unit ∈ document.units, unit.matter ≠ {} →
            ∃ parts, Warning.partsDropped parts unit.qualifiedName ∈ (write settings document).warnings) ∧
      ∀ unit ∈ document.units, (∀ name ∈ unit.path, ∀ c ∈ name.toList, c ≠ ':' ∧ isBlank c = false) →
        NamesAgain unit := by
  have returned : document.Returned := .read success
  obtain ⟨_, flawless⟩ := returned.flawless
  have unindented := returned.unindented
  have filled : written ≠ "" := by
    rintro rfl
    rw [read_empty] at succeeds
    cases succeeds
  obtain ⟨source, splits⟩ : ∃ source, FrontMatter.split (Text.trim (Text.unixLines text.toList)) = .ok source := by
    obtain ⟨_, _, made, _⟩ := read_eq_ok_iff.mp success
    obtain ⟨source, _, _, splits, _⟩ := callsOf_cases made
    exact ⟨source, splits⟩
  have described : ∀ unit ∈ document.units,
      (∃ kind, unit.matter = describedMatter source.metadata kind) ∨ unit.matter = {} := by
    intro unit member
    by_cases first : firstOpened filename text = some unit.qualifiedName
    · obtain ⟨stretch, head, named⟩ := Option.map_eq_some_iff.mp first
      exact .inl ⟨_, ((matter_of_first success splits head).2 unit member named.symm).2⟩
    · exact .inr (matter_of_later success member first)
  have mixed : ∀ unit ∈ document.units, PlainMixins unit := fun unit member =>
    (described unit member).elim (fun ⟨_, same⟩ => mixins_of_described (flawless unit member) (.inl same))
      fun undescribed => @mixins_of_described source.metadata .cls _ (flawless unit member) (.inr undescribed)
  have bare : ∀ unit ∈ document.units,
      (∀ name ∈ unit.path, ∀ c ∈ name.toList, c ≠ ':' ∧ isBlank c = false) → NamesAgain unit := by
    intro unit member each
    obtain ⟨named, _, scope⟩ := (RubyUnit.flaw?_eq_none_iff.mp (flawless unit member)).1
    refine namesAgain_of_bare fun name listed => bareName_of_shown ?_ (each name listed)
    rintro rfl
    exact (List.mem_append.mp listed).elim scope fun own => named (List.mem_singleton.mp own).symm
  cases units : writtenUnits document with
  | nil =>
    have requires := (write_eq_ok writes filled).1 units
    have front := frontMatter_none requires
    rw [units, List.head?_nil] at loads
    obtain ⟨_, cuts⟩ := split_write_of_unwritten writes filled (loads (by simp [front])) units
    rw [front] at cuts
    refine ⟨by simp, fun _ => ⟨?_, ?_⟩, bare⟩
    · exact matter_of_undescribed succeeds cuts fun kind => describedMatter_require document.requires kind
    · intro dropped listed given
      have inside := mem_writtenUnits_of_matter listed (flawless dropped listed) given
      rw [units] at inside
      cases inside
  | cons unit rest =>
    have member : unit ∈ document.units := (List.mem_filter.mp (units ▸ List.mem_cons_self)).1
    rw [units, List.head?_cons] at loads
    obtain ⟨named, _⟩ := (RubyUnit.flaw?_eq_none_iff.mp (flawless unit member)).1
    obtain ⟨front, part, cuts, metadata, headed, level, titled⟩ :=
      exists_split_write writes filled units named (unindented unit member) loads
    have describes : Describes front.metadata unit := metadata ▸ describes_first document unit
    refine ⟨?_, ?_, bare⟩
    · rintro _ ⟨⟩ first names
      obtain ⟨stretch, head, same⟩ := head?_stretchesOf headed level again
      rw [titled names.unbroken] at same
      have unitNamed : stretch.unit = unit.qualifiedName := by rw [Stretch.unit, same, names.named]
      obtain ⟨⟨twin, listed, twinned⟩, all⟩ := matter_of_first succeeds cuts head
      obtain ⟨kind, matter⟩ := all twin listed twinned
      refine ⟨twin, listed, twinned.trans unitNamed, matter.trans ?_⟩
      refine describes.describedMatter_eq (mixed unit member) fun given => ?_
      obtain ⟨name, inherits⟩ := Option.ne_none_iff_exists'.mp given
      have cls := (RubyUnit.of_superclass? inherits).1
      rw [same, unitKind_of_untitled (names.kindInTitle?_eq cls), declaredKind, describes.untyped] at kind
      exact (Except.ok.inj kind).symm
    · intro other
      rw [List.head?_cons, Option.map_some] at other
      have empty : unit.matter = {} := matter_of_later success member other
      constructor
      · refine matter_of_undescribed succeeds cuts fun kind => ?_
        rw [describes.describedMatter_eq (mixed unit member) fun given => ?_, empty]
        exact absurd (congrArg Matter.superclass empty) given
      · intro dropped listed given
        have inside := mem_writtenUnits_of_matter listed (flawless dropped listed) given
        rw [units] at inside
        rcases List.mem_cons.mp inside with rfl | later
        · exact absurd empty given
        · exact warns_of_matter settings (by rwa [units]) given

/-- A class in a module that the text does not define. -/
def nestedText : String := "---\ninclude: M\n---\n# A::B\n"

/-- The mixin of a nested class comes back: the module around it has no section. -/
theorem read_write_matter_of_nested :
    ∃ document reread, (read none nestedText).result = .ok document ∧
      (write .default document).result = .ok "---\ninclude:\n- M\n---\n\n# A::B\n" ∧
      (read none "---\ninclude:\n- M\n---\n\n# A::B\n").result = .ok reread ∧
      ∃ twin ∈ reread.units, twin.qualifiedName = "A::B" ∧ twin.matter = { included := ["M"] } := by
  have reads : (read none nestedText).result.toOption.map (fun document =>
      (decide ((write .default document).result = .ok "---\ninclude:\n- M\n---\n\n# A::B\n"),
        (writtenUnits document).head?.any fun unit => unit.path == ["A", "B"] &&
          unit.matter == { included := ["M"] } &&
            frontMatter document (some unit) == [("include", .texts ["M"])])) = some (true, true) := by
    decide +kernel
  have opens : firstOpened none nestedText = some "A::B" := by decide +kernel
  obtain ⟨reread, succeeds⟩ := Except.exists_of_isOk
    (show (read none "---\ninclude:\n- M\n---\n\n# A::B\n").result.isOk = true by decide +kernel)
  obtain ⟨document, success, seen⟩ := Except.exists_of_toOption reads
  rw [Prod.mk.injEq, decide_eq_true_iff, Option.any_eq_true] at seen
  obtain ⟨writes, unit, head, same⟩ := seen
  simp only [Bool.and_eq_true, beq_iff_eq] at same
  obtain ⟨⟨path, matter⟩, front⟩ := same
  have named : unit.qualifiedName = "A::B" := by
    rw [RubyUnit.qualifiedName, path]
    decide +kernel
  have member : unit ∈ document.units := (List.mem_filter.mp (List.mem_of_mem_head? head)).1
  have loads : DataFormat.Loads (frontMatter document (some unit)) :=
    Yaml.loads_of_single front (by decide +kernel)
  have bare : ∀ name ∈ unit.path, ∀ c ∈ name.toList, c ≠ ':' ∧ isBlank c = false := by
    have looks : (["A", "B"].all fun name => name.toList.all fun c => c != ':' && !isBlank c) = true := by
      decide +kernel
    rw [path]
    simpa only [List.all_eq_true, Bool.and_eq_true, bne_iff_ne, Bool.not_eq_true'] using looks
  obtain ⟨comes, _, again⟩ := read_write_matter success writes
    (by rw [head]; exact fun _ => loads) succeeds
  obtain ⟨twin, listed, twinned, same⟩ := comes unit head (opens.trans (congrArg some named.symm))
    (again unit member bare)
  exact ⟨document, reread, success, writes, succeeds, twin, listed, twinned.trans named, same.trans matter⟩

/-- A class in a module that is defined after it. -/
def reopenedText : String := "---\ninclude: M\n---\n# A::B\n# module A\n"

/-- The mixin of a nested class is lost where the module around it is written before it. -/
theorem matter_lost_of_reopened :
    ¬∀ (text written : String) (document reread : Document) (unit : RubyUnit),
      (read none text).result = .ok document → (write .default document).result = .ok written →
      (frontMatter document (writtenUnits document).head? ≠ [] →
        DataFormat.Loads (frontMatter document (writtenUnits document).head?)) →
      (read none written).result = .ok reread → unit ∈ document.units →
      firstOpened none text = some unit.qualifiedName →
        ∃ twin ∈ reread.units, twin.qualifiedName = unit.qualifiedName ∧ twin.matter = unit.matter := by
  intro carried
  have reads : (read none reopenedText).result.toOption.map (fun document =>
      (decide ((write .default document).result = .ok "# module A\n\n# A::B\n"),
        document.units.find? (·.qualifiedName == "A::B") |>.map RubyUnit.matter,
        frontMatter document (writtenUnits document).head?)) =
      some (true, some { included := ["M"] }, []) := by decide +kernel
  have rereads : (read none "# module A\n\n# A::B\n").result.toOption.map (fun reread =>
      reread.units.all (·.matter == {})) = some true := by decide +kernel
  have opens : firstOpened none reopenedText = some "A::B" := by decide +kernel
  obtain ⟨document, success, seen⟩ := Except.exists_of_toOption reads
  obtain ⟨reread, succeeds, bare⟩ := Except.exists_of_toOption rereads
  simp only [Prod.mk.injEq, decide_eq_true_iff] at seen
  obtain ⟨writes, held, front⟩ := seen
  obtain ⟨unit, found, matter⟩ := Option.map_eq_some_iff.mp held
  have named : unit.qualifiedName = "A::B" := by simpa using List.find?_some found
  obtain ⟨twin, listed, _, same⟩ := carried _ _ document reread unit success writes
    (fun given => absurd front given) succeeds (List.mem_of_find?_eq_some found)
    (opens.trans (congrArg some named.symm))
  have empty : twin.matter = {} := by simpa using List.all_eq_true.mp bare twin listed
  rw [empty, matter] at same
  cases same

end LiterateRuby.Literate
