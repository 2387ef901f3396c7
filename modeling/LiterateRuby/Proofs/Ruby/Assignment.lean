import LiterateRuby.Proofs.Literate.Declaration
import LiterateRuby.Proofs.Namespace
import LiterateRuby.Proofs.Ruby.Makes
import LiterateRuby.Proofs.Ruby.Verbatim

/-! # What the bodies of a unit assign

A walk assigns to the constants and class variables of a unit what the statements of its bodies assign, in
their order (`assigned_of_events`). The units of the document hold these values (`assigned_of_walk`), and each of
them has a literal.
-/

namespace LiterateRuby.Ruby

open Draft (Call Assignment assigned)

variable {scene : Scene}

/-- What an assignment assigns to its left-hand side, if that is a constant or a class variable. -/
def assignmentTo? (left : Tree) (name : String) (value : Constant) : Option Assignment :=
  match left.kind with
  | "constant" => some ⟨false, name, value⟩
  | "class_variable" => some ⟨true, String.ofList ('@' :: '@' :: Draft.bareVariable name), value⟩
  | _ => none

/-- What a statement assigns to a constant or a class variable. -/
def assignmentOf? (scene : Scene) (statement : Tree) : Option Assignment :=
  if statement.kind = "assignment" then
    match statement.child? "left", statement.child? "right" with
    | some left, some right =>
      match (scene.text left).result, (ofTree (decodeValue scene.source scene.root right)).result with
      | .ok name, .ok value => assignmentTo? left name value
      | _, _ => none
    | _, _ => none
  else none

private theorem assigned_assignmentCalls {unit : String} {tree : Tree} {calls : List Call}
    (assigns : tree.kind = "assignment") (success : assignmentCalls scene unit tree = .ok calls) :
    assigned unit calls = (assignmentOf? scene tree).toList := by
  unfold assignmentCalls at success
  unfold assignmentOf?
  rw [if_pos assigns]
  cases begins : tree.child? "left" with
  | none =>
    rw [begins] at success
    cases success
    rfl
  | some left =>
    cases ends : tree.child? "right" with
    | none =>
      rw [begins, ends] at success
      cases success
      rfl
    | some right =>
      rw [begins, ends] at success
      obtain ⟨name, named, remains⟩ := Except.bind_eq_ok_iff.mp success
      dsimp only
      rw [named]
      split at remains
      · next kind =>
        obtain ⟨value, decoded, same⟩ := Except.bind_eq_ok_iff.mp remains
        cases same
        simp [decoded, assignmentTo?, kind, assigned, Call.unit?, Call.assigned?]
      · next kind =>
        obtain ⟨value, decoded, same⟩ := Except.bind_eq_ok_iff.mp remains
        cases same
        simp [decoded, assignmentTo?, kind, assigned, Call.unit?, Call.assigned?]
      · next unlike different =>
        cases remains
        have nothing (value : Constant) : assignmentTo? left name value = none := by
          unfold assignmentTo?
          split
          · next kind => exact absurd kind unlike
          · next kind => exact absurd kind different
          · rfl
        cases (ofTree (decodeValue scene.source scene.root right)).result with
        | ok value => simp [nothing]
        | error fault => rfl

/-- A statement assigns in its own unit, and nothing else than it says. -/
theorem assigned_statementCalls {unit key : String} {tree : Tree} {prose : Option String} {calls : List Call}
    (success : statementCalls scene unit tree prose = .ok calls) :
    assigned key calls = if unit = key then (assignmentOf? scene tree).toList else [] := by
  have own : ∀ call ∈ calls, ∀ other, call.unit? = some other → other = unit := by
    intro call member other addressed
    rcases statementCalls_cases scene unit success with ⟨visibility, -, rfl⟩ | ⟨-, minor⟩
    · rw [List.mem_singleton.mp member] at addressed
      exact (Option.some.inj addressed).symm
    · exact (minor call member).1 other addressed
  split_ifs with same
  · subst same
    by_cases assigns : tree.kind = "assignment"
    · have made : assignmentCalls scene unit tree = .ok calls := by rwa [statementCalls, assigns] at success
      exact assigned_assignmentCalls assigns made
    · rw [assignmentOf?, if_neg assigns]
      refine Draft.assigned_of_elsewhere fun call member _ => ?_
      rcases statementCalls_light scene unit assigns success with ⟨visibility, -, rfl⟩ | ⟨-, light⟩
      · rw [List.mem_singleton.mp member]
        rfl
      · exact light.2 call member
  · exact Draft.assigned_of_elsewhere fun call member addressed => absurd (own call member key addressed).symm same

/-- An event assigns in a unit what the statement assigns that it reads in the unit. -/
def Event.Assigns (scene : Scene) (event : Event) : Prop :=
  ∀ key, assigned key event.calls = (stated key [event]).filterMap (assignmentOf? scene)

private theorem assigns_of_none {event : Event} (unread : ∀ key, stated key [event] = [])
    (silent : ∀ call ∈ event.calls, call.assigned? = none) : event.Assigns scene := by
  intro key
  rw [unread key, Draft.assigned_of_elsewhere fun call member _ => silent call member]
  rfl

private theorem assigns_statement {unit : String} {before : List Tree} {tree : Tree} {prose : Option String}
    {calls : List Call} (success : statementCalls scene unit tree prose = .ok calls) :
    (Event.statement unit before tree calls).Assigns scene := by
  intro key
  rw [Event.calls, assigned_statementCalls success]
  by_cases same : unit = key
  · have read : stated key [.statement unit before tree calls] = [tree] := by simp [stated, Event.stated?, same]
    rw [if_pos same, read, List.filterMap_cons]
    cases assignmentOf? scene tree <;> rfl
  · simp [stated, Event.stated?, same]

/-- A unit and all in it, by induction on how deep units may still be nested. -/
theorem assigns_unit (fuel : Nat) (scope : List String) (tree : Tree) :
    Does (Event.Assigns scene) (unitEvents scene fuel scope tree) := by
  induction fuel generalizing scope tree with
  | zero => rintro paths events after ⟨⟩
  | succ fuel ih =>
    refine does_unit (fun name superclass named headed => ?_) (fun path unit => ?_) fun unit => ?_
    · refine assigns_of_none (fun key => rfl) (List.forall_mem_cons.mpr ⟨rfl, fun call member => ?_⟩)
      obtain ⟨superclass, rfl⟩ := superclassCalls_inherit headed call member
      rfl
    · exact does_body (fun inside _ _ => ih path inside)
        (fun statement _ _ _ _ prose made makes => assigns_statement makes) {} []
    · exact assigns_of_none (fun key => rfl) (List.forall_mem_singleton.mpr rfl)

private theorem assigns_events (trees : List Tree) : Does (Event.Assigns scene) (eventsOf scene trees) := by
  refine does_events fun tree _ => ?_
  unfold topEvents
  split
  · exact assigns_unit scene.root.depth [] tree
  · refine does_of fun made makes event listed => ?_
    obtain ⟨call, member, rfl⟩ := List.mem_map.mp listed
    obtain ⟨name, rfl⟩ := topCalls_require makes call member
    exact assigns_of_none (fun key => rfl) (List.forall_mem_singleton.mpr rfl)

/-- What a walk assigns in a unit is what the statements of its bodies assign, in their order. -/
theorem assigned_of_events {events : List Event} (assigns : ∀ event ∈ events, event.Assigns scene)
    (key : String) : assigned key (callsOf events) = (stated key events).filterMap (assignmentOf? scene) := by
  induction events with
  | nil => rfl
  | cons event rest ih =>
    obtain ⟨first, later⟩ := List.forall_mem_cons.mp assigns
    rw [callsOf_cons, Draft.assigned_append, first key, ih later, ← List.filterMap_append, ← stated_append]
    rfl

/-! ## Values -/

private theorem keepSource_eq_ok {text : String} {value : Constant} (success : keepSource text = .ok value) :
    value = .raw text := by
  have kept := Except.mapError_eq_ok_iff.mp success
  unfold Constant.ofSource at kept
  split_ifs at kept
  exact (Except.ok.inj kept).symm

/-- The opposite of a number that can be written can be written. -/
theorem negated?_literal {text shown : String} {value opposite : Constant} (literal : value.literal = .ok shown)
    (success : negated? text value = some opposite) : ∃ shown, opposite.literal = .ok shown := by
  unfold negated? at success
  dsimp only at success
  split at success
  · split_ifs at success
    cases success
    obtain ⟨few, -⟩ := Constant.literal_int_eq_ok_iff.mp literal
    exact ⟨_, Constant.literal_int_eq_ok_iff.mpr ⟨by rwa [Int.natAbs_neg], rfl⟩⟩
  · split_ifs at success
    cases success
    exact ⟨_, rfl⟩
  · cases success

/-- A value of source code is no data of another kind: it has a literal. -/
theorem literal_of_decodeValue {source : Source} {root tree : Tree} {value : Constant}
    (decoded : decodeValue source root tree = .ok value) : ∃ shown, value.literal = .ok shown := by
  have kept {text : String} {value : Constant} (success : keepSource text = .ok value) :
      ∃ shown, value.literal = .ok shown := ⟨text, by rw [keepSource_eq_ok success, Constant.literal]⟩
  rw [decodeValue] at decoded
  obtain ⟨stop, -, decoded⟩ := Except.bind_eq_ok_iff.mp decoded
  cases stop with
  | some stop =>
    obtain ⟨text, -, decoded⟩ := Except.bind_eq_ok_iff.mp decoded
    exact kept decoded
  | none =>
    obtain ⟨text, -, decoded⟩ := Except.bind_eq_ok_iff.mp decoded
    split at decoded
    · obtain ⟨content, -, decoded⟩ := Except.bind_eq_ok_iff.mp decoded
      cases content with
      | some content =>
        cases decoded
        exact ⟨_, rfl⟩
      | none => exact kept decoded
    · obtain ⟨number, found, decoded⟩ := Except.bind_eq_ok_iff.mp decoded
      cases number with
      | some number =>
        cases decoded
        exact literal_of_canonicalInt? found
      | none => exact kept decoded
    · split at decoded
      · cases decoded
        exact ⟨_, rfl⟩
      · exact kept decoded
    · cases decoded
      exact ⟨_, rfl⟩
    · cases decoded
      exact ⟨_, rfl⟩
    · cases decoded
      exact ⟨_, rfl⟩
    · have symbol := Except.mapError_eq_ok_iff.mp decoded
      unfold Constant.ofSymbol at symbol
      split_ifs at symbol
      cases symbol
      exact ⟨_, rfl⟩
    · split at decoded
      · next operand within =>
        have smaller := Tree.sizeOf_child?_lt within
        split_ifs at decoded
        · obtain ⟨inner, decodes, decoded⟩ := Except.bind_eq_ok_iff.mp decoded
          split at decoded
          · next opposite found =>
            cases decoded
            obtain ⟨_, literal⟩ := literal_of_decodeValue decodes
            exact negated?_literal literal found
          · exact kept decoded
        · exact kept decoded
      · exact kept decoded
    · exact kept decoded
  termination_by sizeOf tree

private theorem literal_of_assignmentOf? {statement : Tree} {made : Assignment}
    (assigns : assignmentOf? scene statement = some made) : ∃ shown, made.value.literal = .ok shown := by
  unfold assignmentOf? at assigns
  split_ifs at assigns
  split at assigns
  · split at assigns
    · next name value _ decoded =>
      have literal : ∃ shown, value.literal = .ok shown :=
        literal_of_decodeValue (Except.mapError_eq_ok_iff.mp decoded)
      unfold assignmentTo? at assigns
      split at assigns <;> cases assigns <;> exact literal
    · cases assigns
  · cases assigns

/-- What is assigned in the bodies of a unit that events read. -/
def assignedIn (scene : Scene) (unit : String) (events : List Event) : List Assignment :=
  (stated unit events).filterMap (assignmentOf? scene)

/-- The values of a unit are those that were assigned, and they have literals. -/
structure Assigned (made : List Assignment) (unit : RubyUnit) : Prop where
  constants : unit.constants = Entries.ofPairs (Assignment.pairs false made)
  classVariables : unit.classVariables = Entries.ofPairs (Assignment.pairs true made)
  written : ∀ entry ∈ unit.classVariables ++ unit.constants, entry.2.literal = .ok (Literate.sourceOf entry.2)

/-- The values of the units of a document are what the bodies of the units assign. -/
theorem assigned_of_walk {filename : Option String} {document : Document}
    (success : (walk scene (Draft.empty filename)).result = .ok document) :
    ∃ events paths, eventsOf scene scene.root.namedChildren [] = .ok (events, paths) ∧
      (document.units.map (·.qualifiedName)).Nodup ∧
      ∀ unit ∈ document.units, Assigned (assignedIn scene unit.qualifiedName events) unit := by
  obtain ⟨events, paths, draft, told, run, enclosed, rfl⟩ := walk_eq_ok success
  have names : draft.document.units.map (·.qualifiedName) = draft.units.keys :=
    enclosed.keyed.names_eq (List.Subset.refl draft.units)
  refine ⟨events, paths, told, names ▸ enclosed.distinct, ?_⟩
  intro unit member
  obtain ⟨⟨key, held⟩, listed, rfl⟩ := List.mem_map.mp member
  have found := Entries.get?_of_mem enclosed.distinct listed
  have named : held.frozen.qualifiedName = key := by
    rw [UnitDraft.frozen_qualifiedName, enclosed.keyed.named key held found]
  have values := run.values found
  rw [assigned_of_events (assigns_events _ [] events paths told), ← assignedIn] at values
  obtain ⟨nature, same⟩ := held.frozen_eq
  rw [named, same]
  refine ⟨values.constants, values.classVariables, fun entry among => ?_⟩
  have assigns : ∃ shared, ⟨shared, entry.1, entry.2⟩ ∈ assignedIn scene key events := by
    rcases List.mem_append.mp among with classWide | constant
    · have given : entry ∈ held.classVariables := classWide
      rw [values.classVariables] at given
      exact ⟨true, Assignment.mem_pairs.mp (Entries.mem_of_mem_ofPairs given)⟩
    · have given : entry ∈ held.constants := constant
      rw [values.constants] at given
      exact ⟨false, Assignment.mem_pairs.mp (Entries.mem_of_mem_ofPairs given)⟩
  obtain ⟨shared, made⟩ := assigns
  obtain ⟨statement, -, assigned⟩ := List.mem_filterMap.mp made
  obtain ⟨shown, literal⟩ := literal_of_assignmentOf? assigned
  rw [Literate.sourceOf, literal]
  rfl

end LiterateRuby.Ruby
