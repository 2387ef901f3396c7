import LiterateRuby.Proofs.Draft.Consistent
import LiterateRuby.Proofs.Draft.Independent

/-! # The methods that calls announce

While calls come in, a unit keeps the active visibility, whether its singleton block is open, and the methods
so far, whose visibilities still change. None of this is needed to say which methods it ends up with: each
call that adds a method announces it, and what the entry leaves open is told by the last of the calls before
it, and of the calls after it, that speak of it (`MethodEntry.announced`).
-/

namespace LiterateRuby.Draft

/-! ## What calls say of methods -/

def Call.entry? : Call → Option MethodEntry
  | .addMethod _ entry => some entry
  | _ => none

/-- Whether a call enters or leaves the singleton block. -/
def Call.block? : Call → Option Bool
  | .enterSingleton _ => some true
  | .exitSingleton _ => some false
  | _ => none

/-- The visibility that a call makes the active one. -/
def Call.active? : Call → Option Visibility
  | .setVisibility _ visibility => some visibility
  | .enterSingleton _ => some .pub
  | _ => none

/-- The visibility that a call gives to the methods of a name and a binding that are there. -/
def Call.shows? (name : String) (binding : Binding) : Call → Option Visibility
  | .setMethodVisibility _ other visibility bound =>
    if other = name ∧ bound = binding then some visibility else none
  | _ => none

/-- What is read off the last of the calls off which anything is read. -/
def last? {α : Type} (reads : Call → Option α) (calls : List Call) : Option α := (calls.filterMap reads).getLast?

/-- How the method of an entry is bound after calls to its unit. -/
def MethodEntry.boundAfter (entry : MethodEntry) (before : List Call) : Binding :=
  if last? Call.block? before = some true ∧ entry.binding = .onInstance then .inSingleton else entry.binding

/-- The method that an entry announces between calls to its unit. -/
def MethodEntry.announced (entry : MethodEntry) (before after : List Call) : Method where
  name := entry.name
  parameters := entry.parameters
  body := entry.body
  visibility := (last? (Call.shows? entry.name (entry.boundAfter before)) after).getD
    (entry.visibility.getD ((last? Call.active? before).getD .pub))
  binding := entry.boundAfter before
  prose := entry.prose

/-- The methods that calls to a unit announce after other calls to it. -/
def announcedAfter (before : List Call) : List Call → List Method
  | [] => []
  | call :: after =>
    (call.entry?.map (·.announced before after)).toList ++ announcedAfter (before ++ [call]) after

/-- The methods that all calls to a unit announce, one for each that adds a method. -/
def announced (calls : List Call) : List Method := announcedAfter [] calls

/-- A method that has all of an entry that no call changes. -/
structure MethodEntry.Gives (entry : MethodEntry) (method : Method) : Prop where
  name : method.name = entry.name
  parameters : method.parameters = entry.parameters
  body : method.body = entry.body
  prose : method.prose = entry.prose

/-- The methods that calls announce are given by the entries of the calls, in their order. -/
theorem gives_announcedAfter (before calls : List Call) :
    List.Forall₂ (fun method entry => entry.Gives method) (announcedAfter before calls)
      (calls.filterMap Call.entry?) := by
  induction calls generalizing before with
  | nil => exact .nil
  | cons call rest ih =>
    rw [announcedAfter]
    cases said : call.entry? with
    | none =>
      rw [List.filterMap_cons_none said]
      exact ih _
    | some entry =>
      rw [List.filterMap_cons_some said]
      exact .cons ⟨rfl, rfl, rfl, rfl⟩ (ih _)

/-! ## One more call -/

private theorem last?_concat {α : Type} (reads : Call → Option α) (calls : List Call) (call : Call) :
    last? reads (calls ++ [call]) = (reads call).or (last? reads calls) := by
  cases said : reads call <;> simp [last?, said]

/-- What a call makes of a method that is there. -/
def Call.reshow (call : Call) (method : Method) : Method :=
  { method with visibility := (call.shows? method.name method.binding).getD method.visibility }

/-- One more call after an entry changes its method if it speaks of it. -/
theorem MethodEntry.announced_concat (entry : MethodEntry) (before after : List Call) (call : Call) :
    entry.announced before (after ++ [call]) = call.reshow (entry.announced before after) := by
  simp only [announced, Call.reshow, last?_concat, Option.getD_or]

private theorem announcedAfter_concat (before calls : List Call) (call : Call) :
    announcedAfter before (calls ++ [call]) =
      (announcedAfter before calls).map call.reshow ++
        (call.entry?.map (·.announced (before ++ calls) [])).toList := by
  induction calls generalizing before with
  | nil => simp [announcedAfter]
  | cons first rest ih =>
    -- for the entry of the first call, the further call is one more behind it
    have head : first.entry?.map (·.announced before (rest ++ [call])) =
        (first.entry?.map (·.announced before rest)).map call.reshow := by
      simp only [Option.map_map, Function.comp_def, MethodEntry.announced_concat]
    have cut : before ++ [first] ++ rest = before ++ first :: rest := by simp
    rw [List.cons_append, announcedAfter, announcedAfter, ih, cut, head, List.map_append, Option.toList_map,
      List.append_assoc]

/-! ## The state that is kept instead -/

/-- The method state that calls tell: their methods, and what the next method takes from them. -/
def toldState (calls : List Call) : MethodState :=
  ⟨announced calls, (last? Call.active? calls).getD .pub, last? Call.block? calls == some true⟩

/-- The entry of a further call announces the method that the state tells. -/
theorem MethodEntry.announced_nil (entry : MethodEntry) (before : List Call) :
    entry.announced before [] = entry.taken (toldState before) := by
  have bound : entry.boundAfter before =
      if (toldState before).inSingleton && entry.binding == .onInstance then .inSingleton else entry.binding := by
    simp [MethodEntry.boundAfter, toldState]
  rw [announced, bound]
  rfl

private theorem Call.reshow_of_silent {call : Call} (silent : ∀ name binding, call.shows? name binding = none)
    (methods : List Method) : methods.map call.reshow = methods := by
  have same : call.reshow = id := by
    funext method
    rw [Call.reshow, silent, Option.getD_none, id]
  rw [same, List.map_id]

private theorem Call.reshow_setMethodVisibility (key name : String) (visibility : Visibility) (binding : Binding) :
    (Call.setMethodVisibility key name visibility binding).reshow =
      fun method => if isMethod name binding method then { method with visibility } else method := by
  funext method
  by_cases meant : name = method.name ∧ binding = method.binding
  · simp [Call.reshow, Call.shows?, isMethod, meant]
  · have other : isMethod name binding method = false := by
      rw [Bool.eq_false_iff]
      intro both
      simp only [isMethod, Bool.and_eq_true, beq_iff_eq] at both
      exact meant ⟨both.1.symm, both.2.symm⟩
    simp [Call.reshow, Call.shows?, meant, other]

/-- One more call changes the told state as it changes the state that is kept. -/
theorem toldState_concat (calls : List Call) (call : Call) :
    toldState (calls ++ [call]) = call.onMethods (toldState calls) := by
  have methods : announced (calls ++ [call]) = (announced calls).map call.reshow ++
      (call.entry?.map (·.taken (toldState calls))).toList := by
    simp only [announced, announcedAfter_concat, List.nil_append, MethodEntry.announced_nil]
  apply MethodState.ext
  · -- a call either changes methods that are there or adds one
    rw [toldState, methods]
    cases call with
    | setMethodVisibility key name visibility binding =>
      rw [Call.reshow_setMethodVisibility]
      exact List.append_nil _
    | addMethod key entry =>
      rw [Call.reshow_of_silent fun _ _ => rfl]
      rfl
    | _ =>
      rw [Call.reshow_of_silent fun _ _ => rfl]
      exact List.append_nil _
  · cases call <;> simp [toldState, last?_concat, Call.active?, Call.onMethods]
  · cases call <;> simp [toldState, last?_concat, Call.block?, Call.onMethods]

/-- The state that is kept after calls is the one that the calls to the unit tell. -/
theorem methodsAfter_eq_toldState (key : String) (calls : List Call) :
    methodsAfter key {} calls = toldState (callsTo key calls) := by
  induction calls using List.reverseRecOn with
  | nil => rfl
  | append_singleton before call ih =>
    rw [methodsAfter_append, ih, methodsAfter_cons, methodsAfter_nil]
    by_cases addressed : call.unit? = some key
    · rw [if_pos addressed, ← toldState_concat]
      simp [callsTo, addressed]
    · rw [if_neg addressed]
      simp [callsTo, addressed]

/-! ## The methods of a document -/

/-- What the draft holds of a unit after calls is told by the calls to it that were not refused. -/
theorem methodState_afterAll (filename : Option String) (calls : List Call) (key : String) :
    ((empty filename).afterAll calls).methodState key =
      toldState (callsTo key ((empty filename).accepted calls)) := by
  rw [((empty filename).runs_accepted calls).methodState key, ← methodsAfter_eq_toldState]
  rfl

/-- A unit is missing exactly if no call to it was taken. -/
theorem get?_afterAll_eq_none_iff {filename : Option String} {calls : List Call} {key : String} :
    ((empty filename).afterAll calls).units.get? key = none ↔
      callsTo key ((empty filename).accepted calls) = [] := by
  have run : slotRun? key none ((empty filename).accepted calls) = some _ :=
    ((empty filename).runs_accepted calls).get? key
  rw [slotRun?_eq_some_none_iff run, callsTo, List.filter_eq_nil_iff, List.find?_eq_none]

private theorem perform_setMethodVisibility_of_absent {draft : Draft} {key : String}
    (absent : draft.units.get? key = none) (name : String) (visibility : Visibility) (binding : Binding) :
    (draft.perform (.setMethodVisibility key name visibility binding)).result = .error (.unknownUnit key) := by
  have unknown : draft.unit key = .error (.unknownUnit key) := by rw [unit, absent]
  simp [perform, setMethodVisibility, unknown]

private theorem perform_setMethodVisibility {draft : Draft} {key : String} {unit : UnitDraft}
    (present : draft.units.get? key = some unit) (name : String) (visibility : Visibility) (binding : Binding) :
    ∃ next, (draft.perform (.setMethodVisibility key name visibility binding)).result =
      .ok (next, .found (unit.methods.any (isMethod name binding))) := by
  have found := unit_eq_ok_iff.mpr present
  have changes := change_of_present present
  exact ⟨_, by simp [perform, setMethodVisibility, found, changes]; rfl⟩

/-- The methods of each unit of a document are those that the calls to it announced, as far as they were not
refused. A call that changes the visibility of methods tells whether there are any, unless its unit is unknown. -/
theorem methods_announced (filename : Option String) (calls : List Call) :
    (∀ document, ((empty filename).afterAll calls).build.2 = .ok document → ∀ unit ∈ document.units,
      unit.methods = announced (callsTo unit.qualifiedName ((empty filename).accepted calls))) ∧
    ∀ key name visibility binding,
      (callsTo key ((empty filename).accepted calls) = [] →
        (((empty filename).afterAll calls).perform (.setMethodVisibility key name visibility binding)).result =
          .error (.unknownUnit key)) ∧
      (callsTo key ((empty filename).accepted calls) ≠ [] →
        ∃ next found, (((empty filename).afterAll calls).perform
            (.setMethodVisibility key name visibility binding)).result = .ok (next, .found found) ∧
          (found = true ↔ ∃ method ∈ announced (callsTo key ((empty filename).accepted calls)),
            method.name = name ∧ method.binding = binding)) := by
  constructor
  · intro document success unit member
    obtain rfl := build_eq_ok success
    have keyed := ((ready_empty filename).afterAll calls).keyed
    rw [keyed.methods_of_document member, methodState_afterAll, toldState]
  · intro key name visibility binding
    constructor
    · intro unknown
      exact perform_setMethodVisibility_of_absent (get?_afterAll_eq_none_iff.mpr unknown) _ _ _
    · intro known
      obtain ⟨unit, present⟩ := Option.ne_none_iff_exists'.mp fun absent =>
        known (get?_afterAll_eq_none_iff.mp absent)
      obtain ⟨next, success⟩ := perform_setMethodVisibility present name visibility binding
      have methods : unit.methods = announced (callsTo key ((empty filename).accepted calls)) := by
        have state := methodState_afterAll filename calls key
        rw [methodState, present] at state
        exact congrArg MethodState.methods state
      refine ⟨next, _, success, ?_⟩
      rw [methods, List.any_eq_true]
      simp only [isMethod, Bool.and_eq_true, beq_iff_eq]

/-- An entry for a public or private method that says no more. -/
def plainEntry (name : String) (visibility : Option Visibility) : MethodEntry :=
  ⟨name, [], .onInstance, "", visibility, none⟩

/-- Calls that add methods before and in a singleton block and after it. The first call is refused because the
unit is unknown, another one because its method is dotted, and one call for the methods named `build` finds
none that is bound so. -/
def recounted : List Call :=
  [.addMethod "A" (plainEntry "early" none), .addUnit "A" .cls [], .setVisibility "A" .priv,
    .addMethod "A" (plainEntry "hidden" none), .addMethod "A" (plainEntry "shown" (some .prot)),
    .enterSingleton "A", .addMethod "A" (plainEntry "build" none), .addMethod "A" (plainEntry "a.b" none),
    .exitSingleton "A", .addMethod "A" (plainEntry "late" none),
    .setMethodVisibility "A" "build" .priv .onInstance, .setMethodVisibility "A" "build" .prot .inSingleton,
    .setMethodVisibility "A" "late" .priv .onInstance, .addMethod "A" (plainEntry "late" none)]

/-- What is said of `late` holds of the method that was there, and not of the next one of the same name. -/
theorem methods_announced_of_recounted :
    ∃ document unit, ((empty none).afterAll recounted).build.2 = .ok document ∧ document.units = [unit] ∧
      unit.methods.map (fun method => (method.name, method.visibility, method.binding)) =
        [("hidden", .priv, .onInstance), ("shown", .prot, .onInstance), ("build", .prot, .inSingleton),
          ("late", .priv, .onInstance), ("late", .pub, .onInstance)] ∧
      ∃ next found, (((empty none).afterAll recounted).perform
          (.setMethodVisibility "A" "build" .pub .inSingleton)).result = .ok (next, .found found) ∧
        found = true := by
  obtain ⟨document, success⟩ : ∃ document, ((empty none).afterAll recounted).build.2 = .ok document :=
    Except.exists_of_isOk (by decide +kernel)
  obtain ⟨listed, replies⟩ := methods_announced none recounted
  have names : document.units.map (·.qualifiedName) = ["A"] := by
    rw [build_eq_ok success]
    decide +kernel
  obtain ⟨unit, single, named⟩ := List.map_eq_singleton_iff.mp names
  have methods := listed document success unit (single ▸ List.mem_singleton_self unit)
  rw [named] at methods
  obtain ⟨next, found, reply, there⟩ := (replies "A" "build" .pub .inSingleton).2 (by decide +kernel)
  refine ⟨document, unit, success, single, ?_, next, found, reply, there.mpr ?_⟩
  · rw [methods]
    decide +kernel
  · decide +kernel

end LiterateRuby.Draft
