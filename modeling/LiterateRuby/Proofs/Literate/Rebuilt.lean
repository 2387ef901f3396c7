import LiterateRuby.Proofs.Literate.Units

/-! # The draft that written units are reread into

A written unit opens the holders on the way to it and itself, and changes nothing else (`Changes`). What a
unit is after some written units is told by `slotAfter`: the last form of a written unit, else a holder on
the way to one. `slotRun?_writtenCallsAll` carries this through any number of units.
-/

namespace LiterateRuby.Literate

open Draft (Call slotRun? slotRun?_append slotRun?_cons_of_unit)

/-! ## What written calls address -/

private theorem declarationPairs_changes (key : String) (unit : RubyUnit) :
    ∀ call ∈ (declarationPairs key unit).map (·.2), Changes key call := by
  intro call made
  obtain ⟨pair, listed, rfl⟩ := List.mem_map.mp made
  simp only [declarationPairs, List.mem_append, List.mem_map] at listed
  rcases listed with ⟨_, _, rfl⟩ | ⟨_, _, rfl⟩ | ⟨_, _, rfl⟩ <;> exact ⟨rfl, rfl⟩

private theorem sectionCalls_changes (key : String) (state : SectionState) (method : Method) :
    ∀ call ∈ sectionCalls key state method, Changes key call := by
  intro call made
  unfold sectionCalls at made
  have known : call = .enterSingleton key ∨ call = .exitSingleton key ∨
      call = .setVisibility key method.visibility := by
    split at made
    · split at made
      · cases made
      · exact .inl (List.mem_singleton.mp made)
    · split at made
      · exact .inr (by simpa using made)
      · cases made
  rcases known with rfl | rfl | rfl <;> exact ⟨rfl, rfl⟩

private theorem methodCalls_changes (key : String) (state : SectionState) (methods : List Method) :
    ∀ call ∈ methodCalls key state methods, Changes key call := by
  induction methods generalizing state with
  | nil => simp [methodCalls]
  | cons method rest ih =>
    intro call made
    simp only [methodCalls, List.mem_append, List.mem_cons] at made
    rcases made with before | leaves | rfl | later
    · exact sectionCalls_changes key state method call before
    · split at leaves
      · cases leaves
      · rw [List.mem_singleton.mp leaves]
        exact ⟨rfl, rfl⟩
    · exact ⟨rfl, rfl⟩
    · exact ih _ call later

/-- The calls of a written unit: holders, the unit itself, and what changes the unit. -/
theorem writtenCalls_eq (metadata : Metadata) (opened : Bool) (unit : RubyUnit) :
    ∃ own, writtenCalls metadata opened unit =
        (pathsTo [] unit.scope).map holderCall ++ .addUnit unit.name unit.kind unit.scope :: own ∧
      ∀ call ∈ own, Changes unit.qualifiedName call := by
  have last : unit.path.getLast?.getD "" = unit.name := by simp [RubyUnit.path]
  have scope : unit.path.dropLast = unit.scope := by simp [RubyUnit.path]
  have key : Text.joinScope unit.path = unit.qualifiedName := rfl
  refine ⟨[.setVisibility unit.qualifiedName .pub, .exitSingleton unit.qualifiedName] ++
    ((if opened then [] else frontMatterCalls metadata unit.kind unit.qualifiedName) ++
      ((declarationPairs unit.qualifiedName unit).map (·.2) ++
        methodCalls unit.qualifiedName {} unit.methods)), ?_, ?_⟩
  · rw [writtenCalls, openingCalls, last, scope, key, holderCalls_eq]
    simp only [List.append_assoc, List.cons_append, List.nil_append]
  · intro call made
    simp only [List.mem_append, List.mem_cons, List.not_mem_nil, or_false] at made
    rcases made with (rfl | rfl) | front | declared | method
    · exact ⟨rfl, rfl⟩
    · exact ⟨rfl, rfl⟩
    · split at front
      · cases front
      · exact frontMatterCalls_changes metadata unit.kind unit.qualifiedName call front
    · exact declarationPairs_changes unit.qualifiedName unit call declared
    · exact methodCalls_changes unit.qualifiedName {} unit.methods call method

/-- Written units address units only. -/
theorem unit?_of_mem_writtenCalls {metadata : Metadata} {opened : Bool} {unit : RubyUnit} {call : Call}
    (made : call ∈ writtenCalls metadata opened unit) : ∃ key, call.unit? = some key := by
  obtain ⟨own, whole, changes⟩ := writtenCalls_eq metadata opened unit
  rw [whole] at made
  rcases List.mem_append.mp made with holder | made
  · obtain ⟨path, _, rfl⟩ := List.mem_map.mp holder
    exact ⟨_, rfl⟩
  · rcases List.mem_cons.mp made with rfl | change
    · exact ⟨_, rfl⟩
    · exact ⟨_, (changes call change).addressed⟩

theorem ne_nil_of_mem_pathsTo {path scope : List String} (member : path ∈ pathsTo [] scope) : path ≠ [] := by
  obtain ⟨inner, given, _, rfl⟩ := mem_pathsTo member
  simpa using given

/-- A written unit opens the paths that lead to it, in their order. -/
theorem opened?_writtenCalls (metadata : Metadata) (opened : Bool) (unit : RubyUnit) :
    (writtenCalls metadata opened unit).filterMap Call.opened? =
      (pathsTo [] unit.path).map Text.joinScope := by
  obtain ⟨own, whole, changes⟩ := writtenCalls_eq metadata opened unit
  have holders : ((pathsTo [] unit.scope).map holderCall).filterMap Call.opened? =
      (pathsTo [] unit.scope).map Text.joinScope := by
    rw [List.filterMap_map, ← List.filterMap_eq_map]
    exact List.filterMap_congr fun path member => unit?_holderCall (ne_nil_of_mem_pathsTo member)
  have rest : own.filterMap Call.opened? = [] :=
    List.filterMap_eq_nil_iff.mpr fun call member => (changes call member).opens
  have opens : (Call.addUnit unit.name unit.kind unit.scope).opened? = some (Text.joinScope unit.path) := rfl
  rw [whole, List.filterMap_append, holders, List.filterMap_cons_some opens, rest, RubyUnit.path,
    pathsTo_concat, List.map_append]
  rfl

/-! ## The draft after some units -/

/-- What a key holds after written units. -/
def slotAfter (done : List RubyUnit) (key : String) : Option UnitDraft :=
  ((done.find? fun unit => unit.qualifiedName == key).map finalDraft).or
    (((done.flatMap fun unit => pathsTo [] unit.scope).find? fun path => Text.joinScope path == key).map
      holderDraft)

/-- A written unit is in its place. -/
theorem slotAfter_of_mem {done : List RubyUnit} (once : (done.map (·.qualifiedName)).Nodup) {unit : RubyUnit}
    (member : unit ∈ done) : slotAfter done unit.qualifiedName = some (finalDraft unit) := by
  have found : done.find? (fun other => other.qualifiedName == unit.qualifiedName) = some unit := by
    induction done with
    | nil => cases member
    | cons first rest ih =>
      obtain ⟨fresh, later⟩ := List.nodup_cons.mp once
      rcases List.mem_cons.mp member with rfl | inside
      · exact List.find?_cons_of_pos (by simp)
      · rw [List.find?_cons_of_neg, ih later inside]
        intro same
        have named : first.qualifiedName = unit.qualifiedName := by simpa using same
        have listed : unit.qualifiedName ∈ rest.map (·.qualifiedName) := List.mem_map_of_mem inside
        rw [← named] at listed
        exact fresh listed
  rw [slotAfter, found]
  rfl

/-- Front matter describes the first unit, and the others need no description. -/
def DescribedBy (metadata : Metadata) : Bool → List RubyUnit → Prop
  | _, [] => True
  | opened, unit :: rest =>
    (if opened then Undescribed unit else Describes metadata unit) ∧ DescribedBy metadata true rest

/-- Every part of a plain path is a plain path. -/
theorem segments_of_mem_pathsTo {unit : RubyUnit} (fair : FairUnit unit) {path : List String}
    (member : path ∈ pathsTo [] unit.scope) : ∀ segment ∈ path, BareName segment := by
  obtain ⟨inner, _, starts, rfl⟩ := mem_pathsTo member
  intro segment inside
  exact fair.path segment (List.mem_append_left _ (starts.subset inside))

/-- Before a unit is written, nothing or a holder stands in its place. -/
theorem slotAfter_of_fresh {done : List RubyUnit} (fair : ∀ unit ∈ done, FairUnit unit) {unit : RubyUnit}
    (next : FairUnit unit) (fresh : ∀ other ∈ done, other.qualifiedName ≠ unit.qualifiedName) :
    slotAfter done unit.qualifiedName = none ∨
      slotAfter done unit.qualifiedName = some (holderDraft unit.path) := by
  have unwritten : done.find? (fun other => other.qualifiedName == unit.qualifiedName) = none := by
    rw [List.find?_eq_none]
    intro other member
    simpa using fresh other member
  rw [slotAfter, unwritten, Option.map_none, Option.none_or]
  cases found : (done.flatMap fun other => pathsTo [] other.scope).find?
      fun path => Text.joinScope path == unit.qualifiedName with
  | none => exact .inl rfl
  | some path =>
    right
    obtain ⟨other, listed, member⟩ := List.mem_flatMap.mp (List.mem_of_find?_eq_some found)
    have named : Text.joinScope path = unit.qualifiedName := by simpa using List.find?_some found
    have same := joinScope_injective (ne_nil_of_mem_pathsTo member) (Branch.path_ne_nil unit)
      (segments_of_mem_pathsTo (fair other listed) member) next.path named
    rw [Option.map_some, same]

/-- A written unit changes its own place, and puts holders where nothing was. -/
theorem slotRun?_writtenUnit {metadata : Metadata} {opened : Bool} {done : List RubyUnit}
    (fair : ∀ unit ∈ done, FairUnit unit) {unit : RubyUnit} (next : FairUnit unit)
    (mixed : PlainMixins unit) (fresh : ∀ other ∈ done, other.qualifiedName ≠ unit.qualifiedName)
    (described : if opened then Undescribed unit else Describes metadata unit) (key : String) :
    slotRun? key (slotAfter done key) (writtenCalls metadata opened unit) =
      some (slotAfter (done ++ [unit]) key) := by
  by_cases own : unit.qualifiedName = key
  · subst own
    have unwritten : done.find? (fun other => other.qualifiedName == unit.qualifiedName) = none := by
      rw [List.find?_eq_none]
      intro other member
      simpa using fresh other member
    have after : slotAfter (done ++ [unit]) unit.qualifiedName = some (finalDraft unit) := by
      rw [slotAfter, List.find?_append, unwritten]
      simp
    rw [slotRun?_writtenCalls next mixed described (slotAfter_of_fresh fair next fresh), after]
  · obtain ⟨calls, whole, changes⟩ := writtenCalls_eq metadata opened unit
    have elsewhere : ∀ call ∈ .addUnit unit.name unit.kind unit.scope :: calls, call.unit? ≠ some key := by
      intro call member
      rcases List.mem_cons.mp member with rfl | change
      · intro same
        exact own (Option.some.inj same)
      · rw [(changes call change).addressed]
        simpa using own
    have after : slotAfter (done ++ [unit]) key =
        (slotAfter done key).or
          (((pathsTo [] unit.scope).find? fun path => Text.joinScope path == key).map holderDraft) := by
      have other : [unit].find? (fun unit => unit.qualifiedName == key) = none := by simp [own]
      rw [slotAfter, List.find?_append, other, Option.or_none, List.flatMap_append, List.flatMap_singleton,
        List.find?_append, Option.map_or, ← Option.or_assoc]
      rfl
    rw [whole, slotRun?_append, slotRun?_holderCalls fun path member => ne_nil_of_mem_pathsTo member,
      Option.bind_some, Draft.slotRun?_of_elsewhere elsewhere, after]

/-- What written units make of each key. -/
theorem slotRun?_writtenCallsAll {metadata : Metadata} {opened : Bool} {units : List RubyUnit}
    (described : DescribedBy metadata opened units) {done : List RubyUnit}
    (fair : ∀ unit ∈ done ++ units, FairUnit unit) (mixed : ∀ unit ∈ units, PlainMixins unit)
    (once : ((done ++ units).map (·.qualifiedName)).Nodup) (key : String) :
    slotRun? key (slotAfter done key) (writtenCallsAll metadata opened units) =
      some (slotAfter (done ++ units) key) := by
  induction units generalizing opened done with
  | nil => rw [writtenCallsAll, Draft.slotRun?_nil, List.append_nil]
  | cons unit rest ih =>
    obtain ⟨here, later⟩ := described
    have assoc : done ++ unit :: rest = (done ++ [unit]) ++ rest := by simp
    have fresh : ∀ other ∈ done, other.qualifiedName ≠ unit.qualifiedName := by
      intro other member
      rw [List.map_append] at once
      exact (List.nodup_append.mp once).2.2 _ (List.mem_map_of_mem member) _ (by simp)
    have first := slotRun?_writtenUnit (fun other member => fair other (List.mem_append_left _ member))
      (fair unit (by simp)) (mixed unit List.mem_cons_self) fresh here key
    rw [assoc] at fair once
    rw [writtenCallsAll, slotRun?_append, first, Option.bind_some, assoc]
    exact ih later fair (fun other member => mixed other (List.mem_cons_of_mem _ member)) once

/-- Written units open the paths that lead to them. -/
theorem opened?_writtenCallsAll (metadata : Metadata) (opened : Bool) (units : List RubyUnit) :
    (writtenCallsAll metadata opened units).filterMap Call.opened? =
      (units.flatMap fun unit => pathsTo [] unit.path).map Text.joinScope := by
  induction units generalizing opened with
  | nil => rfl
  | cons unit rest ih =>
    rw [writtenCallsAll, List.filterMap_append, opened?_writtenCalls, ih, List.flatMap_cons, List.map_append]

theorem unit?_of_mem_writtenCallsAll {metadata : Metadata} {opened : Bool} {units : List RubyUnit} {call : Call}
    (made : call ∈ writtenCallsAll metadata opened units) : ∃ key, call.unit? = some key := by
  induction units generalizing opened with
  | nil => cases made
  | cons unit rest ih =>
    rcases List.mem_append.mp made with here | later
    · exact unit?_of_mem_writtenCalls here
    · exact ih later

end LiterateRuby.Literate
