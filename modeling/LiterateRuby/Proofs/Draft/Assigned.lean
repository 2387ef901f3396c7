import LiterateRuby.Proofs.Draft.Run

/-! # What calls assign

Calls assign values to the constants and class variables of a unit. A unit holds each name once, where it was
first assigned, with the value that it was last assigned (`Runs.values`).
-/

namespace LiterateRuby

namespace Text

variable {α : Type} [BEq α] [LawfulBEq α]

omit [LawfulBEq α] in
/-- What is seen first stays in front, whatever is seen later. -/
theorem distinct_prefix (first second : List α) : distinct first <+: distinct (first ++ second) := by
  induction second using List.reverseRecOn with
  | nil => simp
  | append_singleton items last ih =>
    rw [← List.append_assoc, distinct_concat]
    split
    · exact ih
    · exact ih.trans (List.prefix_append _ _)

/-- An item that is seen before another one is, stands before it. -/
theorem sublist_distinct {before after : List α} {first second : α} (seen : first ∈ before)
    (fresh : second ∉ before) : [first, second].Sublist (distinct (before ++ second :: after)) := by
  obtain ⟨rest, whole⟩ := distinct_prefix before (second :: after)
  have early : first ∈ distinct before := mem_distinct.mpr seen
  have late : second ∈ rest := by
    have member : second ∈ distinct (before ++ second :: after) := mem_distinct.mpr (by simp)
    rw [← whole, List.mem_append] at member
    exact member.resolve_left fun old => fresh (mem_distinct.mp old)
  rw [← whole]
  exact List.Sublist.append (List.singleton_sublist.mpr early) (List.singleton_sublist.mpr late)

end Text

namespace Entries

variable {α : Type} [BEq α] [LawfulBEq α]

omit [LawfulBEq α] in
theorem ofPairs_concat (pairs : List (α × β)) (key : α) (value : β) :
    ofPairs (pairs ++ [(key, value)]) = (ofPairs pairs).put key value := by
  rw [ofPairs, List.foldl_append]
  rfl

/-- Entries that are made from pairs have the names in the order in which they are first seen. -/
theorem keys_ofPairs (pairs : List (α × β)) : keys (ofPairs pairs) = Text.distinct (pairs.map (·.1)) := by
  induction pairs using List.reverseRecOn with
  | nil => rfl
  | append_singleton pairs last ih =>
    rw [ofPairs_concat, keys_put, ih, List.map_append, List.map_singleton, Text.distinct_concat]
    simp only [List.contains_iff_mem]

private theorem mem_of_mem_put {entries : Entries α β} {key : α} {value : β} {entry : α × β}
    (member : entry ∈ entries.put key value) : entry ∈ entries ∨ entry = (key, value) := by
  induction entries with
  | nil => exact .inr (List.mem_singleton.mp member)
  | cons head rest ih =>
    obtain ⟨other, held⟩ := head
    rw [put_cons] at member
    split at member
    · next same =>
      rcases List.mem_cons.mp member with first | later
      · exact .inr (by rw [first, eq_of_beq same])
      · exact .inl (List.mem_cons_of_mem _ later)
    · rcases List.mem_cons.mp member with rfl | later
      · exact .inl List.mem_cons_self
      · exact (ih later).imp_left (List.mem_cons_of_mem _)

/-- Entries that are made from pairs hold nothing else. -/
theorem mem_of_mem_ofPairs {pairs : List (α × β)} {entry : α × β} (member : entry ∈ ofPairs pairs) :
    entry ∈ pairs := by
  induction pairs using List.reverseRecOn with
  | nil => cases member
  | append_singleton pairs last ih =>
    rw [ofPairs_concat] at member
    rw [List.mem_append, List.mem_singleton]
    exact (mem_of_mem_put member).imp_left ih

end Entries

/-- The class variables of a unit, which the class shares, or its constants. -/
def RubyUnit.values (unit : RubyUnit) (shared : Bool) : Entries String Constant :=
  if shared then unit.classVariables else unit.constants

namespace Draft

/-- A value that is assigned to a name: that of a class variable, which the class shares, or of a constant. -/
structure Assignment where
  shared : Bool
  name : String
  value : Constant

namespace Assignment

def target (assignment : Assignment) : Bool × String := (assignment.shared, assignment.name)

/-- The names and values of the assignments to class variables, or of those to constants. -/
def pairs (shared : Bool) (assigned : List Assignment) : List (String × Constant) :=
  (assigned.filter (·.shared == shared)).map fun assignment => (assignment.name, assignment.value)

theorem mem_pairs {shared : Bool} {assigned : List Assignment} {entry : String × Constant} :
    entry ∈ pairs shared assigned ↔ ⟨shared, entry.1, entry.2⟩ ∈ assigned := by
  simp only [pairs, List.mem_map, List.mem_filter, beq_iff_eq]
  constructor
  · rintro ⟨made, ⟨listed, rfl⟩, rfl⟩
    exact listed
  · exact fun listed => ⟨_, ⟨listed, rfl⟩, rfl⟩

theorem pairs_append (shared : Bool) (first second : List Assignment) :
    pairs shared (first ++ second) = pairs shared first ++ pairs shared second := by
  rw [pairs, List.filter_append, List.map_append]
  rfl

/-- What the names of one kind hold after assignments. -/
def values (shared : Bool) (assigned : List Assignment) : Entries String Constant :=
  Entries.ofPairs (pairs shared assigned)

def names (shared : Bool) (assigned : List Assignment) : List String := (pairs shared assigned).map (·.1)

theorem keys_values (shared : Bool) (assigned : List Assignment) :
    (values shared assigned).keys = Text.distinct (names shared assigned) := Entries.keys_ofPairs _

theorem mem_names_iff {shared : Bool} {name : String} {assigned : List Assignment} :
    name ∈ names shared assigned ↔ (shared, name) ∈ assigned.map target := by
  simp only [names, pairs, List.map_map, List.mem_map, List.mem_filter, beq_iff_eq, Function.comp, target,
    Prod.mk.injEq]
  constructor
  · rintro ⟨made, ⟨listed, kind⟩, named⟩
    exact ⟨made, listed, kind, named⟩
  · rintro ⟨made, listed, kind, named⟩
    exact ⟨made, ⟨listed, kind⟩, named⟩

theorem mem_keys_values {shared : Bool} {name : String} {assigned : List Assignment} :
    name ∈ (values shared assigned).keys ↔ (shared, name) ∈ assigned.map target := by
  rw [keys_values, Text.mem_distinct, mem_names_iff]

end Assignment

def Call.assigned? : Call → Option Assignment
  | .addConstant _ name value => some ⟨false, name, value⟩
  | .addClassVariable _ name value => some ⟨true, String.ofList ('@' :: '@' :: bareVariable name), value⟩
  | _ => none

theorem Call.assigned?_of_document {call : Call} (addressed : call.unit? = none) : call.assigned? = none := by
  cases call <;> first | rfl | cases addressed

/-- What calls assign in a unit, in their order. -/
def assigned (key : String) (calls : List Call) : List Assignment :=
  (calls.filter (·.unit? == some key)).filterMap Call.assigned?

@[simp] theorem assigned_nil (key : String) : assigned key [] = [] := rfl

@[simp] theorem assigned_append (key : String) (first second : List Call) :
    assigned key (first ++ second) = assigned key first ++ assigned key second := by
  rw [assigned, List.filter_append, List.filterMap_append]
  rfl

theorem assigned_of_elsewhere {key : String} {calls : List Call}
    (elsewhere : ∀ call ∈ calls, call.unit? = some key → call.assigned? = none) : assigned key calls = [] := by
  rw [assigned, List.filterMap_eq_nil_iff]
  intro call member
  obtain ⟨listed, addressed⟩ := List.mem_filter.mp member
  exact elsewhere call listed (by simpa using addressed)

/-- The values of a unit are those that were assigned to its names. -/
structure Values (made : List Assignment) (unit : UnitDraft) : Prop where
  constants : unit.constants = Entries.ofPairs (Assignment.pairs false made)
  classVariables : unit.classVariables = Entries.ofPairs (Assignment.pairs true made)

private theorem Call.fresh?_values {call : Call} {unit : UnitDraft} (fresh : call.fresh? = some unit) :
    call.assigned? = none ∧ Values [] unit := by
  cases Call.opens_of_fresh? fresh with
  | unit named => exact ⟨rfl, rfl, rfl⟩
  | holder => exact ⟨rfl, rfl, rfl⟩

private theorem Values.kept {made : List Assignment} {unit next : UnitDraft} (held : Values made unit)
    (constants : next.constants = unit.constants) (classVariables : next.classVariables = unit.classVariables) :
    Values (made ++ []) next := by
  rw [List.append_nil]
  exact ⟨constants.trans held.constants, classVariables.trans held.classVariables⟩

/-- A call assigns one value at most. -/
theorem Call.update?_values {call : Call} {unit next : UnitDraft} {made : List Assignment}
    (held : Values made unit) (updated : call.update? unit = some next) :
    Values (made ++ call.assigned?.toList) next := by
  cases Call.updates_of_update? updated with
  | @constant _ name value named =>
    have own : Assignment.pairs false [⟨false, name, value⟩] = [(name, value)] := rfl
    have other : Assignment.pairs true [⟨false, name, value⟩] = [] := rfl
    constructor
    · rw [Call.assigned?, Option.toList_some, Assignment.pairs_append, own, Entries.ofPairs_concat,
        ← held.constants]
    · rw [Call.assigned?, Option.toList_some, Assignment.pairs_append, other, List.append_nil,
        ← held.classVariables]
  | @classVariable _ name value named =>
    have own : Assignment.pairs true [⟨true, String.ofList ('@' :: '@' :: bareVariable name), value⟩] =
        [(String.ofList ('@' :: '@' :: bareVariable name), value)] := rfl
    have other : Assignment.pairs false [⟨true, String.ofList ('@' :: '@' :: bareVariable name), value⟩] = [] :=
      rfl
    constructor
    · rw [Call.assigned?, Option.toList_some, Assignment.pairs_append, other, List.append_nil,
        ← held.constants]
    · rw [Call.assigned?, Option.toList_some, Assignment.pairs_append, own, Entries.ofPairs_concat,
        ← held.classVariables]
  | _ => exact held.kept rfl rfl

/-- A unit holds what the calls that address it assign. -/
theorem slotRun?_values {key : String} {calls : List Call} {slot : Option UnitDraft} {made : List Assignment}
    {unit : UnitDraft} (held : ∀ before, slot = some before → Values made before)
    (unseen : slot = none → made = []) (run : slotRun? key slot calls = some (some unit)) :
    Values (made ++ assigned key calls) unit := by
  induction calls generalizing slot made with
  | nil =>
    obtain rfl := Option.some.inj run
    simpa using held unit rfl
  | cons call rest ih =>
    rw [← List.singleton_append, assigned_append, ← List.append_assoc]
    by_cases addressed : call.unit? = some key
    · rw [slotRun?_cons_of_unit addressed] at run
      obtain ⟨next, effect, run⟩ := Option.bind_eq_some_iff.mp run
      have own : assigned key [call] = call.assigned?.toList := by
        cases gives : call.assigned? <;> simp [assigned, addressed, gives]
      have values : Values (made ++ assigned key [call]) next := by
        rw [own]
        cases slot with
        | none =>
          obtain ⟨nothing, empty⟩ := Call.fresh?_values effect
          rwa [nothing, unseen rfl]
        | some before => exact Call.update?_values (held before rfl) effect
      refine ih (fun before same => ?_) (fun same => by cases same) run
      rwa [← Option.some.inj same]
    · rw [slotRun?_cons_of_ne addressed] at run
      have nothing : assigned key [call] = [] := by simp [assigned, addressed]
      rw [nothing, List.append_nil]
      exact ih held unseen run

/-- Each unit of a draft holds each name once, where it was first assigned, with the value that was assigned
last. -/
theorem Runs.values {filename : Option String} {calls : List Call} {draft : Draft}
    (run : (empty filename).Runs calls draft) {key : String} {unit : UnitDraft}
    (found : draft.units.get? key = some unit) : Values (assigned key calls) unit := by
  have slot : slotRun? key none calls = some (some unit) := (run.get? key).trans (congrArg some found)
  exact slotRun?_values (fun _ same => by cases same) (fun _ => rfl) slot

end Draft

end LiterateRuby
