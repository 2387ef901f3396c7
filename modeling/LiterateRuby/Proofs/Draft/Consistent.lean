import LiterateRuby.Proofs.Draft.Kind
import LiterateRuby.Proofs.Draft.Methods

/-! # Calls that are all taken

Which call is refused depends on little: what the call itself says, the kinds that its unit was opened as
and the names that the two forms of alias took before. None of it depends on the order of the calls, but
that a unit is opened first. `exists_runs_of_empty_iff` says that calls can be run on an empty draft exactly
if the calls to each unit are consistent.
-/

namespace LiterateRuby.Draft

/-! ## One call -/

/-- A call that can be taken at all: nothing that it names is empty, and its method has no flaw. -/
def Call.Flawless : Call → Prop
  | .addUnit name _ _ => name ≠ ""
  | .addMethod _ entry => entry.Flawless
  | .addConstant _ name _ => name ≠ ""
  | .addClassVariable _ name _ => bareVariable name ≠ []
  | .addAttribute _ _ names => names ≠ [] ∧ "" ∉ names
  | _ => True

/-- A call for the document as a whole has no flaw. -/
theorem Call.flawless_of_document {call : Call} (document : call.unit? = none) : call.Flawless := by
  cases call <;> trivial

/-- The new name that a call gives by an alias statement. -/
def Call.alias? : Call → Option String
  | .addAlias _ new _ => some new
  | _ => none

/-- The new name that a call gives by an alias call. -/
def Call.aliasMethod? : Call → Option String
  | .addAliasMethod _ new _ => some new
  | _ => none

/-- A unit that is there takes a call if the call is flawless, agrees with its kind and gives no name that
the other form of alias has. -/
theorem Call.update?_isSome_iff {call : Call} {unit : UnitDraft} :
    (call.update? unit).isSome = true ↔
      call.Flawless ∧ (∀ kind, call.kind? = some kind → unit.holder = true ∨ unit.kind = kind) ∧
        (∀ name, call.alias? = some name → name ∉ unit.aliasMethods.keys) ∧
        ∀ name, call.aliasMethod? = some name → name ∉ unit.aliases.keys := by
  cases call <;> simp only [Call.update?, Call.Flawless, Call.kind?, Call.alias?, Call.aliasMethod?,
    Option.some.injEq, forall_eq', reduceCtorEq, false_implies, implies_true, and_true, true_and]
  case addUnit name kind scope =>
    by_cases unnamed : name = ""
    · simp [unnamed]
    · by_cases holds : unit.holder = true <;> by_cases same : unit.kind = kind <;> simp [unnamed, holds, same]
  case setSuperclass key superclass => cases unit.kind <;> simp
  case markNamespaceOnly key => cases unit.kind <;> simp
  case addMethod key entry =>
    cases valid : (entry.inUnit unit).checked with
    | ok method => simpa using (MethodEntry.flawless_iff unit).mpr (Method.checked_eq_ok_iff.mp valid).1
    | error flaw =>
      suffices flawed : ¬entry.Flawless by simpa using flawed
      intro flawless
      rw [Method.checked_eq_ok_iff.mpr ⟨(MethodEntry.flawless_iff unit).mp flawless, rfl⟩] at valid
      cases valid
  case addAttribute key accessor names =>
    by_cases empty : names = [] <;> by_cases blank : "" ∈ names <;> simp [Attribute.checked, empty, blank]
  case addConstant key name value => by_cases unnamed : name = "" <;> simp [unnamed]
  case addClassVariable key name value => by_cases unnamed : bareVariable name = [] <;> simp [unnamed]
  case addDeclared key accessor names => cases accessor <;> simp
  case addAlias key new old => simp [Entries.has_eq_true_iff]
  case addAliasMethod key new old => simp [Entries.has_eq_true_iff]
  all_goals simp

/-- A unit that is not there takes a call that opens it. -/
theorem Call.fresh?_isSome_iff {call : Call} :
    call.fresh?.isSome = true ↔ call.opened?.isSome = true ∧ call.Flawless := by
  cases call with
  | addUnit name kind scope =>
    by_cases unnamed : name = "" <;> simp [Call.fresh?, Call.opened?, Call.Flawless, unnamed]
  | _ => simp [Call.fresh?, Call.opened?, Call.Flawless]

/-- A fresh unit has no aliases, and no call both opens a unit and gives an alias. -/
theorem Call.fresh?_aliases {call : Call} {unit : UnitDraft} (fresh : call.fresh? = some unit) :
    unit.aliases = [] ∧ unit.aliasMethods = [] ∧ call.alias? = none ∧ call.aliasMethod? = none := by
  cases Call.opens_of_fresh? fresh <;> exact ⟨rfl, rfl, rfl, rfl⟩

/-- A call adds the new name that it gives by an alias, and no other. -/
theorem Call.update?_aliases {call : Call} {unit next : UnitDraft} (updated : call.update? unit = some next) :
    (∀ name, name ∈ next.aliases.keys ↔ name ∈ unit.aliases.keys ∨ call.alias? = some name) ∧
      ∀ name, name ∈ next.aliasMethods.keys ↔
        name ∈ unit.aliasMethods.keys ∨ call.aliasMethod? = some name := by
  cases Call.updates_of_update? updated with
  | @aliased _ new _ _ | @aliasedMethod _ new _ _ =>
    simp [Call.alias?, Call.aliasMethod?, Entries.mem_keys_put, @eq_comm _ new]
  | _ => simp [Call.alias?, Call.aliasMethod?]

/-! ## All calls to a unit -/

/-- The new names that calls give to a unit by alias statements. -/
def aliasesOf (key : String) (calls : List Call) : List String :=
  (calls.filter (·.unit? == some key)).filterMap Call.alias?

/-- The new names that calls give to a unit by alias calls. -/
def aliasMethodsOf (key : String) (calls : List Call) : List String :=
  (calls.filter (·.unit? == some key)).filterMap Call.aliasMethod?

/-- The first call to a unit, if there is one, opens it. -/
def OpenedFirst (key : String) (calls : List Call) : Prop :=
  ∀ call, calls.find? (·.unit? == some key) = some call → call.opened?.isSome = true

/-- Calls do not contradict each other in what they say of a unit: the first one opens it, none is flawed,
all that open it agree on its kind, and no name is given by both forms of alias. -/
structure Consistent (key : String) (calls : List Call) : Prop where
  opens : OpenedFirst key calls
  flawless : ∀ call ∈ calls, call.unit? = some key → call.Flawless
  agree : ∀ kind ∈ kindsOf key calls, ∀ other ∈ kindsOf key calls, kind = other
  apart : ∀ name ∈ aliasesOf key calls, name ∉ aliasMethodsOf key calls

variable {key : String} {before : List Call} {call : Call}

/-- Later calls to a unit need not open it. -/
theorem openedFirst_append {after : List Call} (first : OpenedFirst key before)
    (later : before.find? (·.unit? == some key) = none → OpenedFirst key after) :
    OpenedFirst key (before ++ after) := by
  intro call found
  rw [List.find?_append] at found
  cases earlier : before.find? (·.unit? == some key) with
  | none =>
    rw [earlier, Option.none_or] at found
    exact later earlier call found
  | some held =>
    rw [earlier, Option.some_or] at found
    cases found
    exact first _ earlier

theorem openedFirst_of_unaddressed (elsewhere : ∀ call ∈ before, call.unit? ≠ some key) :
    OpenedFirst key before := by
  intro call found
  exact absurd (by simpa using List.find?_some found) (elsewhere call (List.mem_of_find?_eq_some found))

private theorem consistent_nil (key : String) : Consistent key [] where
  opens := by simp [OpenedFirst]
  flawless := by simp
  agree := by simp [kindsOf]
  apart := by simp [aliasesOf]

private theorem kindsOf_concat (addressed : call.unit? = some key) :
    kindsOf key (before ++ [call]) = kindsOf key before ++ call.kind?.toList := by
  rw [kindsOf_append, kindsOf_cons, if_pos addressed]
  simp [kindsOf]

private theorem aliasesOf_concat (addressed : call.unit? = some key) :
    aliasesOf key (before ++ [call]) = aliasesOf key before ++ call.alias?.toList := by
  cases given : call.alias? <;> simp [aliasesOf, addressed, given]

private theorem aliasMethodsOf_concat (addressed : call.unit? = some key) :
    aliasMethodsOf key (before ++ [call]) = aliasMethodsOf key before ++ call.aliasMethod?.toList := by
  cases given : call.aliasMethod? <;> simp [aliasMethodsOf, addressed, given]

/-- Calls to other units do not matter. -/
theorem consistent_concat_of_ne (elsewhere : call.unit? ≠ some key) :
    Consistent key (before ++ [call]) ↔ Consistent key before := by
  have opened : OpenedFirst key (before ++ [call]) ↔ OpenedFirst key before := by
    simp [OpenedFirst, List.find?_append, elsewhere]
  have kept : (before ++ [call]).filter (·.unit? == some key) = before.filter (·.unit? == some key) := by
    simp [elsewhere]
  have flawless : (∀ other ∈ before ++ [call], other.unit? = some key → other.Flawless) ↔
      ∀ other ∈ before, other.unit? = some key → other.Flawless := by
    simp [or_imp, forall_and, elsewhere]
  constructor
  · rintro ⟨opens, sound, agree, apart⟩
    rw [flawless] at sound
    rw [kindsOf, kept] at agree
    rw [aliasesOf, aliasMethodsOf, kept] at apart
    exact ⟨opened.mp opens, sound, agree, apart⟩
  · rintro ⟨opens, sound, agree, apart⟩
    refine ⟨opened.mpr opens, flawless.mpr sound, ?_, ?_⟩
    · rw [kindsOf, kept]
      exact agree
    · rw [aliasesOf, aliasMethodsOf, kept]
      exact apart

/-- What one more call to a unit must not contradict. -/
theorem consistent_concat_iff (addressed : call.unit? = some key) :
    Consistent key (before ++ [call]) ↔
      Consistent key before ∧
        (before.find? (·.unit? == some key) = none → call.opened?.isSome = true) ∧ call.Flawless ∧
        (∀ kind, call.kind? = some kind → ∀ other ∈ kindsOf key before, other = kind) ∧
        (∀ name, call.alias? = some name → name ∉ aliasMethodsOf key before) ∧
        ∀ name, call.aliasMethod? = some name → name ∉ aliasesOf key before := by
  constructor
  · rintro ⟨opens, flawless, agree, apart⟩
    have find : (before ++ [call]).find? (·.unit? == some key) =
        (before.find? (·.unit? == some key)).or (some call) := by
      simp [List.find?_append, addressed]
    rw [OpenedFirst, find] at opens
    rw [kindsOf_concat addressed] at agree
    rw [aliasesOf_concat addressed, aliasMethodsOf_concat addressed] at apart
    refine ⟨⟨fun first found => opens first (by rw [found, Option.some_or]), ?_, ?_, ?_⟩,
      fun absent => opens call (by rw [absent, Option.none_or]), flawless call (by simp) addressed, ?_, ?_, ?_⟩
    · exact fun other member => flawless other (List.mem_append_left _ member)
    · exact fun kind member other listed =>
        agree kind (List.mem_append_left _ member) other (List.mem_append_left _ listed)
    · exact fun name member taken => apart name (List.mem_append_left _ member) (List.mem_append_left _ taken)
    · exact fun kind given other member => agree other (List.mem_append_left _ member) kind (by simp [given])
    · exact fun name given taken => apart name (by simp [given]) (List.mem_append_left _ taken)
    · exact fun name given taken => apart name (List.mem_append_left _ taken) (by simp [given])
  · rintro ⟨⟨opens, flawless, agree, apart⟩, first, own, same, spelled, called⟩
    refine ⟨?_, ?_, ?_, ?_⟩
    · refine openedFirst_append opens fun unaddressed other found => ?_
      rw [List.mem_singleton.mp (List.mem_of_find?_eq_some found)]
      exact first unaddressed
    · intro other member target
      rcases List.mem_append.mp member with old | new
      · exact flawless other old target
      · rwa [List.mem_singleton.mp new]
    · rw [kindsOf_concat addressed]
      intro kind member other listed
      rcases List.mem_append.mp member with old | new <;> rcases List.mem_append.mp listed with known | now
      · exact agree kind old other known
      · exact same other (Option.mem_toList.mp now) kind old
      · exact (same kind (Option.mem_toList.mp new) other known).symm
      · exact Option.some.inj ((Option.mem_toList.mp new).symm.trans (Option.mem_toList.mp now))
    · rw [aliasesOf_concat addressed, aliasMethodsOf_concat addressed]
      intro name member taken
      rcases List.mem_append.mp member with old | new <;> rcases List.mem_append.mp taken with known | now
      · exact apart name old known
      · exact called name (Option.mem_toList.mp now) old
      · exact spelled name (Option.mem_toList.mp new) known
      · -- no call is of both forms
        have both : call.alias? = some name ∧ call.aliasMethod? = some name :=
          ⟨Option.mem_toList.mp new, Option.mem_toList.mp now⟩
        cases call <;> simp [Call.alias?, Call.aliasMethod?] at both

/-! ## Runs -/

/-- A unit is there after calls exactly if one of them addresses it. -/
theorem slotRun?_eq_some_none_iff {slot : Option UnitDraft} (success : slotRun? key none before = some slot) :
    slot = none ↔ before.find? (·.unit? == some key) = none := by
  induction before using List.reverseRecOn generalizing slot with
  | nil =>
    cases success
    simp
  | append_singleton earlier call ih =>
    rw [slotRun?_append] at success
    obtain ⟨middle, began, success⟩ := Option.bind_eq_some_iff.mp success
    rw [List.find?_append, Option.or_eq_none_iff, ← ih began]
    by_cases addressed : call.unit? = some key
    · rw [slotRun?_cons_of_unit addressed] at success
      obtain ⟨unit, _, same⟩ := Option.bind_eq_some_iff.mp success
      cases same
      simp [addressed]
    · rw [slotRun?_cons_of_ne addressed] at success
      cases success
      simp [addressed]

/-- The aliases of a unit are those that calls gave it. -/
theorem slotRun?_aliasKeys {unit : UnitDraft} (success : slotRun? key none before = some (some unit)) :
    (∀ name, name ∈ unit.aliases.keys ↔ name ∈ aliasesOf key before) ∧
      ∀ name, name ∈ unit.aliasMethods.keys ↔ name ∈ aliasMethodsOf key before := by
  induction before using List.reverseRecOn generalizing unit with
  | nil => cases success
  | append_singleton earlier call ih =>
    rw [slotRun?_append] at success
    obtain ⟨middle, began, success⟩ := Option.bind_eq_some_iff.mp success
    by_cases addressed : call.unit? = some key
    · rw [slotRun?_cons_of_unit addressed] at success
      obtain ⟨next, effect, same⟩ := Option.bind_eq_some_iff.mp success
      cases same
      rw [aliasesOf_concat addressed, aliasMethodsOf_concat addressed]
      cases middle with
      | none =>
        obtain ⟨unkinded, bare, spelled, called⟩ := Call.fresh?_aliases effect
        have unaddressed := (slotRun?_eq_some_none_iff began).mp rfl
        have nothing : earlier.filter (·.unit? == some key) = [] := by
          simpa [List.find?_eq_none] using unaddressed
        simp [unkinded, bare, spelled, called, aliasesOf, aliasMethodsOf, nothing]
      | some held =>
        obtain ⟨spelled, called⟩ := ih began
        obtain ⟨gained, added⟩ := Call.update?_aliases effect
        simp [gained, added, spelled, called]
    · rw [slotRun?_cons_of_ne addressed] at success
      cases success
      have kept : (earlier ++ [call]).filter (·.unit? == some key) = earlier.filter (·.unit? == some key) := by
        simp [addressed]
      rw [aliasesOf, aliasMethodsOf, kept]
      exact ih began

/-- A unit takes all calls that address it exactly if they are consistent. -/
theorem slotRun?_isSome_iff {calls : List Call} :
    (slotRun? key none calls).isSome = true ↔ Consistent key calls := by
  induction calls using List.reverseRecOn with
  | nil => simpa using consistent_nil key
  | append_singleton before call ih =>
    rw [slotRun?_append]
    by_cases addressed : call.unit? = some key
    · rw [consistent_concat_iff addressed, ← ih]
      cases began : slotRun? key none before with
      | none => simp
      | some slot =>
        have there := slotRun?_eq_some_none_iff began
        rw [Option.bind_some, slotRun?_cons_of_unit addressed, Option.isSome_some]
        have taken : ((call.effect? slot).bind fun unit => slotRun? key (some unit) []).isSome =
            (call.effect? slot).isSome := by
          cases call.effect? slot <;> rfl
        rw [taken]
        cases slot with
        | none =>
          have nothing : before.filter (·.unit? == some key) = [] := by
            simpa [List.find?_eq_none] using there.mp rfl
          rw [Call.effect?, Call.fresh?_isSome_iff]
          simp [there.mp rfl, kindsOf, aliasesOf, aliasMethodsOf, nothing]
        | some held =>
          have kinded := slotRun?_kinded (by simp) (fun _ => rfl) began
          rw [List.nil_append] at kinded
          obtain ⟨spelled, called⟩ := slotRun?_aliasKeys began
          have agrees : (∀ kind, call.kind? = some kind → held.holder = true ∨ held.kind = kind) ↔
              ∀ kind, call.kind? = some kind → ∀ other ∈ kindsOf key before, other = kind := by
            refine forall₂_congr fun kind _ => ?_
            rw [kinded.holder]
            cases opened : kindsOf key before with
            | nil => simp
            | cons first rest =>
              have same := kinded.agree
              rw [opened] at same
              constructor
              · rintro (empty | rfl)
                · cases empty
                · exact same
              · exact fun each => .inr (((same first List.mem_cons_self).symm).trans
                  (each first List.mem_cons_self))
          have first : ¬before.find? (·.unit? == some key) = none := fun absent => by
            cases there.mpr absent
          rw [Call.effect?, Call.update?_isSome_iff, agrees]
          simp [first, spelled, called]
    · rw [consistent_concat_of_ne addressed, ← ih]
      simp [slotRun?_cons_of_ne addressed]

/-- Calls that do not address a unit do not matter for it. -/
theorem consistent_append_of_unaddressed {after : List Call}
    (elsewhere : ∀ call ∈ before, call.unit? ≠ some key) :
    Consistent key (before ++ after) ↔ Consistent key after := by
  rw [← slotRun?_isSome_iff, ← slotRun?_isSome_iff, slotRun?_append, slotRun?_of_elsewhere elsewhere,
    Option.bind_some]

/-- Calls can be run on an empty draft exactly if what they say of each unit is consistent. -/
theorem exists_runs_of_empty_iff {filename : Option String} {calls : List Call}
    (given : ∀ call ∈ calls, call.Given) :
    (∃ next, (empty filename).Runs calls next) ↔ ∀ key, Consistent key calls := by
  rw [exists_runs_iff given]
  exact forall_congr' fun key => slotRun?_isSome_iff

end LiterateRuby.Draft
