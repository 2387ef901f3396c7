import LiterateRuby.Document
import LiterateRuby.Proofs.Entries

/-! # Units, methods and declarations without flaws

What it means for a method, a declaration of attributes or a unit to break no rule, as one condition
for each rule.
-/

namespace LiterateRuby

theorem Method.flaw?_eq_none_iff {method : Method} :
    method.flaw? = none ↔
      method.name ≠ "" ∧ (isDotted method.name = true ↔ method.binding = .onReceiver) ∧
        (method.parameters.filter (· == .forward)).length ≤ 1 := by
  unfold flaw?
  by_cases unnamed : method.name = ""
  · simp [unnamed]
  · rw [if_neg unnamed]
    by_cases dotted : isDotted method.name = true <;> by_cases receiver : method.binding = .onReceiver <;>
      simp [unnamed, dotted, receiver]

namespace Attribute

theorem checked_eq_ok_iff {accessor : Accessor} {names : List String} {declaration : Attribute} :
    checked accessor names = .ok declaration ↔
      names ≠ [] ∧ "" ∉ names ∧ declaration = ⟨accessor, names⟩ := by
  unfold checked
  by_cases empty : names = []
  · simp [empty]
  · rw [if_neg (by simpa using empty)]
    by_cases blank : "" ∈ names
    · simp [blank]
    · simp [empty, blank, eq_comm]

end Attribute

namespace RubyUnit

private theorem aliasOverlap_isEmpty_iff {unit : RubyUnit} :
    unit.aliasOverlap.isEmpty = true ↔
      ∀ name ∈ unit.aliases.keys, name ∉ unit.aliasMethods.keys := by
  rw [aliasOverlap, List.isEmpty_iff, ← List.length_eq_zero_iff, List.length_mergeSort,
    List.length_eq_zero_iff, List.filter_eq_nil_iff]
  simp only [Entries.has_eq_true_iff]

/-- Only a class has a superclass, and the superclass has a name. -/
theorem of_superclass? {unit : RubyUnit} {name : String} (given : unit.superclass? = some name) :
    unit.kind = .cls ∧ name ≠ "" := by
  unfold superclass? at given
  unfold kind
  split at given
  · exact ⟨rfl, by simpa using (Option.filter_eq_some_iff.mp given).2⟩
  · cases given

/-- What nature a unit may have: no empty superclass, and no content in a mere namespace. -/
def AllowsNature (unit : RubyUnit) : Prop :=
  match unit.nature with
  | .cls superclass => superclass ≠ some ""
  | .mod namespaceOnly => namespaceOnly = true → unit.hasOwnContent = false

/-- A unit breaks no rule if its names, its class variables, its aliases and its nature are in order. -/
theorem flaw?_eq_none_iff {unit : RubyUnit} :
    unit.flaw? = none ↔
      (unit.name ≠ "" ∧ "" ∉ Text.scopeSegments unit.name ∧ "" ∉ unit.scope) ∧
        (∀ name ∈ unit.classVariables.keys, ['@', '@'] <+: name.toList) ∧
        (∀ name ∈ unit.aliases.keys, name ∉ unit.aliasMethods.keys) ∧ unit.AllowsNature := by
  have marked : (unit.classVariables.keys.find? fun name =>
      (Text.after? ['@', '@'] name.toList).isNone) = none ↔
      ∀ name ∈ unit.classVariables.keys, ['@', '@'] <+: name.toList := by
    rw [List.find?_eq_none]
    refine forall₂_congr fun name _ => ?_
    rw [Bool.not_eq_true, Option.isNone_eq_false_iff, Option.isSome_iff_exists]
    simp only [Text.after?_eq_some_iff]
    exact exists_congr fun rest => eq_comm
  have natural : (match unit.nature with
      | .cls superclass => if superclass = some "" then some (Flaw.emptySuperclass unit.name) else none
      | .mod namespaceOnly =>
        if namespaceOnly && unit.hasOwnContent then some (.namespaceWithContent unit.name)
        else none) = none ↔ unit.AllowsNature := by
    unfold AllowsNature
    cases unit.nature <;> simp
  unfold flaw?
  by_cases unnamed : unit.name = ""
  · simp [unnamed]
  by_cases blankName : "" ∈ Text.scopeSegments unit.name
  · simp [unnamed, blankName]
  by_cases blankScope : "" ∈ unit.scope
  · simp [unnamed, blankName, blankScope]
  rw [if_neg unnamed, if_neg (by simpa using blankName), if_neg (by simpa using blankScope)]
  cases found : unit.classVariables.keys.find? fun name =>
      (Text.after? ['@', '@'] name.toList).isNone with
  | some name =>
    have bad : ¬∀ name ∈ unit.classVariables.keys, ['@', '@'] <+: name.toList := by
      rw [← marked, found]
      exact Option.some_ne_none name
    simp [bad]
  | none =>
    by_cases apart : unit.aliasOverlap.isEmpty = true
    · dsimp only
      rw [if_pos apart]
      exact natural.trans ⟨fun allowed => ⟨⟨unnamed, blankName, blankScope⟩, marked.mp found,
        aliasOverlap_isEmpty_iff.mp apart, allowed⟩, fun rules => rules.2.2.2⟩
    · dsimp only
      rw [if_neg apart]
      rw [aliasOverlap_isEmpty_iff] at apart
      simp [apart]

end RubyUnit

/-- A document breaks no rule if nothing occurs twice in it. -/
theorem Document.flaw?_eq_none_iff {document : Document} :
    document.flaw? = none ↔ (document.units.map (·.qualifiedName)).Nodup ∧ document.requires.Nodup := by
  have units := @firstRepeated?_eq_none_iff [] (document.units.map (·.qualifiedName))
  have requires := @firstRepeated?_eq_none_iff [] document.requires
  simp only [List.not_mem_nil, not_false_eq_true, implies_true, and_true] at units requires
  rw [← units, ← requires]
  unfold flaw?
  cases firstRepeated? [] (document.units.map (·.qualifiedName)) <;>
    cases firstRepeated? [] document.requires <;> simp

theorem Document.checked_eq_ok_iff {document result : Document} :
    document.checked = .ok result ↔ document.flaw? = none ∧ result = document := by
  unfold checked
  split
  · next flaw found => simp [found]
  · next found => simp [found, eq_comm]

end LiterateRuby
