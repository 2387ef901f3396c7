import LiterateRuby.Proofs.Forest
import LiterateRuby.Proofs.Literate.Section

/-! # The titles of units

The heading of a unit names its path, and says if it is a module. Where the parts of the path are bare names,
such as names without blanks and colons, the title is read as that path and that kind again (`unitPath_unitTitle`,
`unitKind_unitTitle`).
-/

namespace LiterateRuby.Literate

open Text (isBlank Trimmed Unbroken)

/-- A title that starts with the word for a kind and a blank. -/
def SaysKind (title : List Char) : Prop :=
  ∃ kind : RubyUnit.Kind, ∃ gap rest, Text.after? kind.keyword.toList title = some (gap :: rest) ∧ isBlank gap = true

private theorem kindInTitle?_of_mute {title : List Char} (mute : ¬SaysKind title) : kindInTitle? title = none := by
  unfold kindInTitle?
  rw [List.findSome?_eq_none_iff]
  intro kind _
  split
  · next gap rest after =>
    have shown : isBlank gap = false := by
      by_contra blank
      exact mute ⟨kind, gap, rest, after, by simpa using blank⟩
    rw [shown, Bool.false_and, if_neg Bool.false_ne_true]
  · rfl

/-- A name that a title can hold: without colons, line breaks and blanks around it, and without a word for a kind
before it. -/
structure BareName (name : String) : Prop where
  given : name ≠ ""
  unscoped : ':' ∉ name.toList
  trimmed : Trimmed name.toList
  unbroken : Unbroken name.toList
  mute : ¬SaysKind name.toList

/-- A name without blanks and colons is bare. -/
theorem bareName_of_shown {name : String} (given : name ≠ "")
    (each : ∀ c ∈ name.toList, c ≠ ':' ∧ isBlank c = false) : BareName name where
  given := given
  unscoped member := (each ':' member).1 rfl
  trimmed := Text.trimmed_of_shown fun c member => (each c member).2
  unbroken := Text.unbroken_of_shown fun c member => (each c member).2
  mute := by
    rintro ⟨kind, gap, rest, after, blank⟩
    have inside : gap ∈ name.toList := by
      rw [Text.after?_eq_some_iff.mp after]
      simp
    rw [(each gap inside).2] at blank
    cases blank

private theorem BareName.trimmedText_eq {name : String} (bare : BareName name) :
    trimmedText name.toList = name := by
  rw [trimmedText, bare.trimmed.trim_eq, String.ofList_toList]

/-! ## Scoped names -/

theorem toList_joinScope (segments : List String) :
    (Text.joinScope segments).toList = [':', ':'].intercalate (segments.map String.toList) := by
  have separator : "::".toList = [':', ':'] := rfl
  rw [Text.joinScope, String.toList_intercalate, separator]

theorem scopeSegments_ne_nil (name : String) : Text.scopeSegments name ≠ [] := by
  simpa [Text.scopeSegments] using Text.splitScope_ne_nil _

/-- The segments of a name make it up. -/
theorem joinScope_scopeSegments (name : String) : Text.joinScope (Text.scopeSegments name) = name := by
  have pieces : (Text.scopeSegments name).map String.toList = Text.splitScope name.toList := by
    simp [Text.scopeSegments, Function.comp_def]
  rw [← String.toList_inj, toList_joinScope, pieces, Text.intercalate_splitScope]

section

variable {segments : List String} (bare : ∀ segment ∈ segments, BareName segment)
include bare

private theorem trimmed_joinScope (given : segments ≠ []) :
    Trimmed (Text.joinScope segments).toList ∧ (Text.joinScope segments).toList ≠ [] := by
  rw [toList_joinScope]
  refine Text.trimmed_intercalate _ (by simpa using given) fun piece member => ?_
  obtain ⟨segment, listed, rfl⟩ := List.mem_map.mp member
  exact ⟨(bare segment listed).trimmed, by simpa using (bare segment listed).given⟩

private theorem joinScope_ne_empty (given : segments ≠ []) : Text.joinScope segments ≠ "" := by
  simpa using (trimmed_joinScope bare given).2

private theorem unbroken_joinScope : Unbroken (Text.joinScope segments).toList := by
  rw [toList_joinScope]
  intro c member
  rcases Text.mem_intercalate member with colon | ⟨piece, listed, inside⟩
  · exact Text.unbroken_of_shown (Text.shown_of_all (by decide)) c colon
  · obtain ⟨segment, within, rfl⟩ := List.mem_map.mp listed
    exact (bare segment within).unbroken c inside

private theorem mute_joinScope : ¬SaysKind (Text.joinScope segments).toList := by
  rintro ⟨kind, gap, rest, after, blank⟩
  have whole := Text.after?_eq_some_iff.mp after
  rw [toList_joinScope] at whole
  cases segments with
  | nil => cases kind <;> cases whole
  | cons first more =>
    obtain ⟨tail, joined, colon⟩ : ∃ tail, [':', ':'].intercalate ((first :: more).map String.toList) =
        first.toList ++ tail ∧ ∀ c following, tail = c :: following → c = ':' := by
      cases more with
      | nil => exact ⟨[], by simp, by simp⟩
      | cons next following =>
        refine ⟨':' :: ':' :: [':', ':'].intercalate ((next :: following).map String.toList), ?_, ?_⟩
        · simp [List.intercalate_cons_cons]
        · rintro c _ ⟨⟩
          rfl
    rw [joined] at whole
    -- The word and the blank after it are the start of the first segment, or a colon is among them.
    rcases List.append_eq_append_iff.mp whole with ⟨within, keyword, follows⟩ | ⟨within, starts, follows⟩
    · cases within with
      | nil =>
        rw [colon gap rest follows] at blank
        exact absurd blank (by decide)
      | cons c following =>
        have inside : ':' ∈ kind.keyword.toList := by
          rw [keyword, colon c _ follows]
          simp
        cases kind <;> exact absurd inside (by decide)
    · cases within with
      | nil =>
        rw [colon gap rest follows.symm] at blank
        exact absurd blank (by decide)
      | cons c following =>
        obtain ⟨rfl, _⟩ := List.cons.inj follows
        exact (bare first List.mem_cons_self).mute
          ⟨kind, gap, following, Text.after?_eq_some_iff.mpr starts, blank⟩

private theorem splitScope_toList (given : segments ≠ []) :
    Text.splitScope (Text.joinScope segments).toList = segments.map String.toList := by
  rw [toList_joinScope]
  apply Text.splitScope_intercalate (by simpa using given)
  intro piece member
  obtain ⟨segment, listed, rfl⟩ := List.mem_map.mp member
  exact (bare segment listed).unscoped

/-- The segments of a scoped name come back. -/
theorem splitScope_joinScope (given : segments ≠ []) :
    (Text.splitScope (Text.joinScope segments).toList).map trimmedText = segments := by
  have each : ∀ segment ∈ segments, (trimmedText ∘ String.toList) segment = segment := fun segment listed =>
    (bare segment listed).trimmedText_eq
  rw [splitScope_toList bare given, List.map_map, List.map_congr_left each, List.map_id']

private theorem scopeSegments_joinScope (given : segments ≠ []) :
    Text.scopeSegments (Text.joinScope segments) = segments := by
  rw [Text.scopeSegments, splitScope_toList bare given, List.map_map]
  simp [Function.comp_def]

end

/-- A name that is made up of bare names. -/
def ScopedName (name : String) : Prop := ∀ segment ∈ Text.scopeSegments name, BareName segment

/-- A scoped name in another one is a scoped name. -/
theorem ScopedName.inside {outer name : String} (around : ScopedName outer) (own : ScopedName name) :
    ScopedName (outer ++ "::" ++ name) := by
  have both : ∀ segment ∈ Text.scopeSegments outer ++ Text.scopeSegments name, BareName segment :=
    List.forall_mem_append.mpr ⟨around, own⟩
  have whole : outer ++ "::" ++ name = Text.joinScope (Text.scopeSegments outer ++ Text.scopeSegments name) := by
    rw [Text.joinScope, String.intercalate_append_of_ne_nil (scopeSegments_ne_nil outer) (scopeSegments_ne_nil name),
      ← Text.joinScope, ← Text.joinScope, joinScope_scopeSegments, joinScope_scopeSegments]
  rwa [ScopedName, whole, scopeSegments_joinScope both (by simp [scopeSegments_ne_nil])]

/-- Whether a name is made up of names without blanks and colons. -/
def looksScoped (name : String) : Bool :=
  (Text.scopeSegments name).all fun segment => segment != "" && segment.toList.all fun c => c != ':' && !isBlank c

theorem scopedName_of_looks {name : String} (looks : looksScoped name = true) : ScopedName name := by
  intro segment listed
  simp only [looksScoped, List.all_eq_true, Bool.and_eq_true, bne_iff_ne, Bool.not_eq_true'] at looks
  exact bareName_of_shown (looks segment listed).1 (looks segment listed).2

/-- Different paths have different names. -/
theorem joinScope_injective {first second : List String} (given : first ≠ []) (more : second ≠ [])
    (bare : ∀ segment ∈ first, BareName segment) (others : ∀ segment ∈ second, BareName segment)
    (same : Text.joinScope first = Text.joinScope second) : first = second := by
  rw [← splitScope_joinScope bare given, ← splitScope_joinScope others more, same]

/-! ## Titles -/

theorem kindInTitle?_module {name : String} (given : name ≠ "") (trimmed : Trimmed name.toList) :
    kindInTitle? ("module " ++ name).toList = some (.mod, name.toList) := by
  have written : ("module " ++ name).toList = RubyUnit.Kind.mod.keyword.toList ++ ' ' :: name.toList := by
    simp [RubyUnit.Kind.keyword]
  have cls : Text.after? RubyUnit.Kind.cls.keyword.toList
      (RubyUnit.Kind.mod.keyword.toList ++ ' ' :: name.toList) = none := rfl
  have blank : isBlank ' ' = true := by decide
  simp [kindInTitle?, written, cls, Text.after?_append, Text.trimStart_eq_self trimmed.1, trimmed.trim_eq,
    blank, given]

def unitTitle (unit : RubyUnit) : String :=
  match unit.kind with
  | .mod => "module " ++ Text.joinScope unit.path
  | .cls => Text.joinScope unit.path

theorem unitHeading_eq (unit : RubyUnit) : unitHeading unit = "# " ++ unitTitle unit := by
  unfold unitHeading unitTitle
  cases unit.kind with
  | cls => rfl
  | mod =>
    rw [← String.toList_inj]
    simp

section

variable {unit : RubyUnit} (bare : ∀ segment ∈ unit.path, BareName segment)
include bare

theorem unitPath_unitTitle : unitPath (unitTitle unit).toList = unit.path := by
  have given := Branch.path_ne_nil unit
  unfold unitPath unitTitle
  cases unit.kind with
  | cls =>
    rw [kindInTitle?_of_mute (mute_joinScope bare)]
    exact splitScope_joinScope bare given
  | mod =>
    rw [kindInTitle?_module (joinScope_ne_empty bare given) (trimmed_joinScope bare given).1]
    exact splitScope_joinScope bare given

theorem unitKey_unitTitle : unitKey (unitTitle unit).toList = unit.qualifiedName := by
  rw [unitKey, unitPath_unitTitle bare, RubyUnit.qualifiedName]

theorem unitKind_unitTitle {metadata : Metadata} (untyped : metadata.get? "type" = none) :
    unitKind metadata (unitTitle unit).toList = .ok unit.kind := by
  have given := Branch.path_ne_nil unit
  unfold unitKind unitTitle
  cases unit.kind with
  | cls =>
    rw [kindInTitle?_of_mute (mute_joinScope bare)]
    simp [declaredKind, untyped]
  | mod => rw [kindInTitle?_module (joinScope_ne_empty bare given) (trimmed_joinScope bare given).1]

/-- The title of a unit is a line without blanks around it. -/
theorem titled_unitTitle : Trimmed (unitTitle unit).toList ∧ (unitTitle unit).toList ≠ [] ∧
    Unbroken (unitTitle unit).toList := by
  obtain ⟨trimmed, given⟩ := trimmed_joinScope bare (Branch.path_ne_nil unit)
  have unbroken := unbroken_joinScope bare
  unfold unitTitle
  cases unit.kind with
  | cls => exact ⟨trimmed, given, unbroken⟩
  | mod =>
    have keyword : Trimmed "module".toList := Text.trimmed_of_shown (Text.shown_of_all (by decide))
    have written : ("module " ++ Text.joinScope unit.path).toList =
        "module".toList ++ ([' '] ++ (Text.joinScope unit.path).toList) := by
      simp
    rw [written]
    refine ⟨keyword.around trimmed (by decide) given _, by simp, ?_⟩
    rw [Text.unbroken_append, Text.unbroken_append]
    exact ⟨by simp, by simp, unbroken⟩

end

end LiterateRuby.Literate
