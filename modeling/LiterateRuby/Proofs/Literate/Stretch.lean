import LiterateRuby.Proofs.Draft.Methods
import LiterateRuby.Proofs.Literate.Proper

/-! # What headings mean

The text of a unit is cut into stretches, each from a heading that names the unit to the next heading of
level one. Inside a stretch a method takes its visibility and its place in the singleton block from the
headings before it. `section_methods` says that reading a section does just that to its unit.
-/

namespace LiterateRuby.Literate

open Draft (Call methodsAfter)

namespace Heading

/-- The visibility that a heading sets for the methods after it. -/
def sets? (heading : Heading) : Option Visibility :=
  if heading.level = 2 then
    (Visibility.ofText? (String.ofList heading.title)).or
      (if heading.title = singletonTitle then some .pub else none)
  else none

def opensBlock (heading : Heading) : Bool := heading.level == 2 && heading.title == singletonTitle

def isMethod (heading : Heading) : Bool :=
  heading.level == 3 || (heading.level == 2 && heading.sets?.isNone)

end Heading

/-- The visibility after headings: that which the last one sets. -/
def visibilityAfter (before : List Heading) : Visibility :=
  (before.filterMap Heading.sets?).getLast?.getD .pub

/-- Whether the last heading of level two opens the singleton block. -/
def inBlockAfter (before : List Heading) : Bool :=
  ((before.filter (·.level == 2)).getLast?.map Heading.opensBlock).getD false

/-- The method of a section, with the headings that stand before it in its stretch. -/
def methodOf (before : List Heading) (part : Section) : Except Parameter.Flaw Method := do
  let title ← readTitle part.heading.title
  let inBlock := part.heading.level == 3 && inBlockAfter before
  return {
    name := title.name
    parameters := title.parameters
    body := bodyOf part.text
    visibility := visibilityAfter before
    binding := if inBlock && title.binding == .onInstance then .inSingleton else title.binding
    prose := none }

/-- The methods of sections, with the headings that stand before them in their stretch. -/
def methodsOf (before : List Heading) : List Section → List (Except Parameter.Flaw Method)
  | [] => []
  | part :: rest =>
    (if part.heading.isMethod then [methodOf before part] else []) ++
      methodsOf (before ++ [part.heading]) rest

/-- A title that names a unit, and the sections up to the next heading of level one. -/
structure Stretch where
  title : List Char
  parts : List Section

/-- The qualified name of the unit that a stretch belongs to. -/
def Stretch.unit (stretch : Stretch) : String := unitKey stretch.title

def Stretch.methods (stretch : Stretch) : List (Except Parameter.Flaw Method) :=
  methodsOf [] stretch.parts

/-- The sections before the first heading of level one, and the stretches after it. -/
def stretches : List Section → List Section × List Stretch
  | [] => ([], [])
  | part :: rest =>
    if part.heading.level = 1 then ([], ⟨part.heading.title, (stretches rest).1⟩ :: (stretches rest).2)
    else (part :: (stretches rest).1, (stretches rest).2)

/-- The stretches of a text; without a heading of level one the whole text belongs to the unit that is
named after its file. -/
def stretchesOf [DataFormat] (filename : Option String) (text : String) : List Stretch :=
  match FrontMatter.split (Text.trim (Text.unixLines text.toList)) with
  | .error _ => []
  | .ok frontMatter =>
    let lines := scan false (Text.lines frontMatter.body)
    if (headings lines).any (·.level == 1) then (stretches (sections lines).2).2
    else
      match inferredName? filename frontMatter lines with
      | some name => [⟨name.toList, (sections lines).2⟩]
      | none => []

/-! ## One section -/

theorem visibilityAfter_concat (before : List Heading) (heading : Heading) :
    visibilityAfter (before ++ [heading]) = heading.sets?.getD (visibilityAfter before) := by
  unfold visibilityAfter
  rw [List.filterMap_append]
  cases sets : heading.sets? with
  | none => simp [sets]
  | some visibility => simp [sets]

theorem inBlockAfter_concat (before : List Heading) (heading : Heading) :
    inBlockAfter (before ++ [heading]) =
      if heading.level = 2 then heading.opensBlock else inBlockAfter before := by
  unfold inBlockAfter
  rw [List.filter_append]
  by_cases second : heading.level = 2 <;> simp [second]

/-- The singleton block is public. -/
theorem visibilityAfter_of_inBlock {before : List Heading} (inside : inBlockAfter before = true) :
    visibilityAfter before = .pub := by
  induction before using List.reverseRecOn with
  | nil => rfl
  | append_singleton before heading ih =>
    rw [inBlockAfter_concat] at inside
    rw [visibilityAfter_concat]
    split at inside
    · next second =>
      have titled : heading.title = singletonTitle := by simpa [Heading.opensBlock, second] using inside
      have sets : heading.sets? = some .pub := by
        unfold Heading.sets?
        rw [if_pos second, titled]
        decide
      rw [sets]
      rfl
    · next other =>
      have sets : heading.sets? = none := if_neg other
      rw [sets]
      exact ih inside

/-- Lines that declare parts of a unit leave its methods alone. -/
theorem textCalls_quiet {unit : String} {lines : List (List Char)} {calls : List Call}
    (success : textCalls unit none lines = .ok calls) : ∀ call ∈ calls, call.Quiet := by
  intro call made
  obtain ⟨_, declares⟩ := (textCalls_cases success).resolve_left (by simp)
  cases declares call made <;> trivial

/-- A unit heading resets how the unit takes methods, and leaves every other unit alone. -/
theorem unitCalls_methods {metadata : Metadata} {opened : Bool} {title : List Char} {calls : List Call}
    (success : unitCalls metadata opened title = .ok calls) (key : String) (state : MethodState) :
    methodsAfter key state calls =
      if unitKey title = key then { state with visibility := .pub, inSingleton := false } else state := by
  obtain ⟨kind, _, _, _, rfl⟩ := unitCalls_eq_ok_iff.mp success
  have holders : ∀ call ∈ holderCalls [] (unitPath title).dropLast, call.Quiet := by
    intro call made
    obtain ⟨_, _, _, _, rfl⟩ := exists_of_mem_holderCalls made
    trivial
  have front : ∀ call ∈ if opened then [] else frontMatterCalls metadata kind (unitKey title),
      call.Quiet := by
    intro call made
    split at made
    · cases made
    · cases frontMatterCalls_introduce metadata kind _ call made <;> trivial
  rw [Draft.methodsAfter_append, Draft.methodsAfter_of_quiet fun call made _ => front call made,
    openingCalls, Draft.methodsAfter_append,
    Draft.methodsAfter_of_quiet fun call made _ => holders call made]
  simp only [Draft.methodsAfter_cons, Draft.methodsAfter_nil, Call.unit?, Option.some.injEq,
    keyOf_unitPath]
  change (if unitKey title = key then _ else _) = _
  split <;> simp_all [Call.onMethods, unitKey]

/-- A unit heading opens its unit. -/
theorem unitCalls_opens {metadata : Metadata} {opened : Bool} {title : List Char} {calls : List Call}
    (success : unitCalls metadata opened title = .ok calls) :
    ∃ call ∈ calls, call.unit? = some (unitKey title) := by
  obtain ⟨kind, _, _, _, rfl⟩ := unitCalls_eq_ok_iff.mp success
  exact ⟨.exitSingleton (unitKey title), by simp [openingCalls, unitKey], rfl⟩

/-- How a unit takes methods after headings of a stretch. -/
structure Takes (before : List Heading) (state : MethodState) : Prop where
  visibility : state.visibility = visibilityAfter before
  inSingleton : state.inSingleton = inBlockAfter before

theorem takes_nothing (state : MethodState) :
    Takes [] { state with visibility := .pub, inSingleton := false } := ⟨rfl, rfl⟩

/-- The heading of a method sets no visibility and opens no singleton block. -/
theorem Heading.silent_of_isMethod {heading : Heading} (titled : heading.isMethod = true) :
    heading.sets? = none ∧ heading.opensBlock = false := by
  simp only [isMethod, Bool.or_eq_true, Bool.and_eq_true, beq_iff_eq, Option.isNone_iff_eq_none] at titled
  rcases titled with third | ⟨second, silent⟩
  · exact ⟨if_neg (by omega), by simp [opensBlock, third]⟩
  · refine ⟨silent, Bool.eq_false_iff.mpr fun opens => ?_⟩
    have same : heading.title = singletonTitle := by simpa [opensBlock, second] using opens
    simp [sets?, second, same] at silent

/-- A heading of level two ends a singleton block that is open before it, if it is that of a method. -/
theorem inBlockAfter_of_isMethod {heading : Heading} (titled : heading.isMethod = true) (before : List Heading) :
    inBlockAfter (before ++ [heading]) = (heading.level == 3 && inBlockAfter before) := by
  rw [inBlockAfter_concat, (Heading.silent_of_isMethod titled).2]
  simp only [Heading.isMethod, Bool.or_eq_true, Bool.and_eq_true, beq_iff_eq] at titled
  rcases titled with third | ⟨second, _⟩
  · simp [third]
  · simp [second]

section HeadsWithin

variable {key : String} {heading : Heading} {moves : List Call} {method : Option MethodTitle}

theorem HeadsWithin.isMethod (within : HeadsWithin key heading moves method)
    (level : heading.level = 2 ∨ heading.level = 3) : heading.isMethod = method.isSome := by
  cases within with
  | subsection third _ => simp [Heading.isMethod, third]
  | visibility other named => simp [Heading.isMethod, Heading.sets?, level.resolve_right other, named]
  | block other titled => simp [Heading.isMethod, Heading.sets?, level.resolve_right other, titled]
  | leaving other unnamed untitled _ =>
    simp [Heading.isMethod, Heading.sets?, level.resolve_right other, unnamed, untitled]

/-- A heading leaves its unit taking methods as the headings up to this one say, and the methods that the unit
has alone. -/
theorem HeadsWithin.takes (within : HeadsWithin key heading moves method)
    (level : heading.level = 2 ∨ heading.level = 3) {before : List Heading} {state : MethodState}
    (takes : Takes before state) :
    Takes (before ++ [heading]) (methodsAfter key state moves) ∧
      (methodsAfter key state moves).methods = state.methods := by
  have titled := within.isMethod level
  cases within with
  | subsection third _ =>
    refine ⟨⟨?_, ?_⟩, rfl⟩
    · rw [visibilityAfter_concat, (Heading.silent_of_isMethod titled).1]
      exact takes.visibility
    · rw [inBlockAfter_of_isMethod titled, third]
      exact takes.inSingleton
  | leaving other _ _ _ =>
    rw [Draft.methodsAfter_cons_of_unit rfl, Draft.methodsAfter_nil]
    refine ⟨⟨?_, ?_⟩, rfl⟩
    · rw [visibilityAfter_concat, (Heading.silent_of_isMethod titled).1]
      exact takes.visibility
    · rw [inBlockAfter_of_isMethod titled, level.resolve_right other]
      rfl
  | visibility other named =>
    have second := level.resolve_right other
    have outside : heading.title ≠ singletonTitle := by
      intro same
      rw [same, ofText?_singletonTitle] at named
      cases named
    rw [Draft.methodsAfter_cons_of_unit rfl, Draft.methodsAfter_cons_of_unit rfl, Draft.methodsAfter_nil]
    refine ⟨⟨?_, ?_⟩, rfl⟩
    · rw [visibilityAfter_concat, Heading.sets?, if_pos second, named]
      rfl
    · rw [inBlockAfter_concat, if_pos second]
      simp [Call.onMethods, Heading.opensBlock, outside]
  | block other same =>
    have second := level.resolve_right other
    rw [Draft.methodsAfter_cons_of_unit rfl, Draft.methodsAfter_nil]
    refine ⟨⟨?_, ?_⟩, rfl⟩
    · rw [visibilityAfter_concat, Heading.sets?, if_pos second, same, ofText?_singletonTitle]
      rfl
    · rw [inBlockAfter_concat, if_pos second]
      simp [Call.onMethods, Heading.opensBlock, second, same]

end HeadsWithin

/-- The text under the heading of a method adds the method that both say, and nothing else. -/
theorem takes_method {before : List Heading} {part : Section} {title : MethodTitle} {key : String}
    {state : MethodState} {content : List Call} (takes : Takes (before ++ [part.heading]) state)
    (titled : part.heading.isMethod = true) (read : readTitle part.heading.title = .ok title)
    (holds : textCalls key (some title) part.text = .ok content) :
    Takes (before ++ [part.heading]) (methodsAfter key state content) ∧
      (methodsAfter key state content).methods.map Except.ok =
        state.methods.map Except.ok ++ [methodOf before part] := by
  cases holds
  have visibility : visibilityAfter (before ++ [part.heading]) = visibilityAfter before := by
    rw [visibilityAfter_concat, (Heading.silent_of_isMethod titled).1]
    rfl
  have taken : methodOf before part = .ok ((entryOf title part.text).taken state) := by
    unfold methodOf Draft.MethodEntry.taken
    rw [read, takes.inSingleton, takes.visibility, visibility, inBlockAfter_of_isMethod titled]
    rfl
  rw [Draft.methodsAfter_cons_of_unit rfl, Draft.methodsAfter_nil, taken]
  exact ⟨⟨takes.visibility, takes.inSingleton⟩, by simp [Call.onMethods]⟩

/-- A section under a heading of level two or three adds its method, if it has one, and leaves the unit
taking methods as the headings up to this one say. -/
theorem section_methods {metadata : Metadata} {key inside : String} {part : Section}
    {method : Option MethodTitle} {opening content : List Call} {before : List Heading}
    {state : MethodState}
    (opens : headingCalls metadata (some key) part.heading = .ok (opening, inside, method))
    (holds : textCalls inside method part.text = .ok content)
    (level : part.heading.level = 2 ∨ part.heading.level = 3) (takes : Takes before state) :
    inside = key ∧ Takes (before ++ [part.heading]) (methodsAfter key state (opening ++ content)) ∧
      (methodsAfter key state (opening ++ content)).methods.map Except.ok =
        state.methods.map Except.ok ++ if part.heading.isMethod then [methodOf before part] else [] := by
  obtain ⟨rfl, within⟩ := (headingCalls_within_iff (by omega)).mp opens
  have titled := within.isMethod level
  obtain ⟨now, kept⟩ := within.takes level takes
  rw [Draft.methodsAfter_append]
  cases method with
  | none =>
    rw [Draft.methodsAfter_of_quiet fun call made _ => textCalls_quiet holds call made, kept]
    exact ⟨rfl, now, by simp [titled]⟩
  | some title =>
    obtain ⟨after, added⟩ := takes_method now titled within.reads holds
    rw [added, kept]
    exact ⟨rfl, after, by simp [titled]⟩

theorem textCalls_unit {unit : String} {method : Option MethodTitle} {lines : List (List Char)}
    {calls : List Call} (success : textCalls unit method lines = .ok calls) :
    ∀ call ∈ calls, call.unit? = some unit := by
  rcases textCalls_cases success with ⟨title, rfl, rfl⟩ | ⟨rfl, declares⟩
  · simp [Call.unit?]
  · intro call made
    cases declares call made <;> rfl

theorem Moves.unit?_eq {unit : String} {call : Call} (moves : Moves unit call) : call.unit? = some unit := by
  cases moves <;> rfl

end LiterateRuby.Literate
