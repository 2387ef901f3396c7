import LiterateRuby.Proofs.Literate.Written

/-! # The calls of a written text

Each unit of a written text makes the same calls again: it is opened with its path and kind, its values
and attributes are declared, and every method is added with its visibility and its place in a singleton
block (`sectionsCalls_units`). The state of the writer and the state of the unit draft agree after every
method (`slotRun?_methodCalls`), so a unit draft ends as `finalDraft` says.
-/

namespace LiterateRuby.Literate

open Text (isBlank Trimmed Unbroken)
open Draft (Call slotRun?)

/-! ## Texts under headings -/

theorem textCalls_concat_nil (unit : String) (method : Option MethodTitle) (lines : List (List Char)) :
    textCalls unit method (lines ++ [[]]) = textCalls unit method lines := by
  cases method with
  | none => simp only [textCalls, Text.trim_unlines_concat_nil]
  | some method => simp only [textCalls, entryOf, bodyOf, Text.trim_unlines_concat_nil]

private theorem textCalls_nil_cons (unit : String) (method : Option MethodTitle) (lines : List (List Char)) :
    textCalls unit method ([] :: lines) = textCalls unit method lines := by
  cases method with
  | none => simp only [textCalls, Text.trim_unlines_nil_cons]
  | some method => simp only [textCalls, entryOf, bodyOf, Text.trim_unlines_nil_cons]

private theorem textCalls_blank (unit : String) : textCalls unit none [[]] = .ok [] := rfl

/-! ## Methods -/

/-- What is said of a written method when it is read. -/
def writtenEntry (method : Method) : Draft.MethodEntry :=
  ⟨method.name, method.parameters, titledBinding method.binding, method.body, none, none⟩

/-- The calls of the heading that is written before a method. -/
def sectionCalls (key : String) (state : SectionState) (method : Method) : List Call :=
  if method.binding = .inSingleton then if state.inBlock then [] else [.enterSingleton key]
  else if state.inBlock || method.visibility != state.active then
    [.exitSingleton key, .setVisibility key method.visibility]
  else []

def methodCalls (key : String) (state : SectionState) : List Method → List Call
  | [] => []
  | method :: rest =>
    sectionCalls key state method ++
      ((if (nextState state method).inSection then [] else [.exitSingleton key]) ++
        .addMethod key (writtenEntry method) :: methodCalls key (nextState state method) rest)

private theorem headingCalls_visibility (metadata : Metadata) (key : String) (visibility : Visibility) :
    headingCalls metadata (some key) ⟨2, visibility.keyword.toList⟩ =
      .ok ([.exitSingleton key, .setVisibility key visibility], key, none) := by
  cases visibility <;> rfl

private theorem headingCalls_singleton (metadata : Metadata) (key : String) :
    headingCalls metadata (some key) ⟨2, "class << self".toList⟩ = .ok ([.enterSingleton key], key, none) :=
  (headingCalls_within_iff (by decide)).mpr ⟨rfl, .block (by decide) rfl⟩

private theorem sectionsCalls_section {metadata : Metadata} {key : String} {state : SectionState} {method : Method}
    {rest : List Section} {later : List Call}
    (follows : sectionsCalls metadata (some key) rest = .ok later) :
    sectionsCalls metadata (some key)
        ((sectionTitle? state method).toList.map (fun title => part 2 title []) ++ rest) =
      .ok (sectionCalls key state method ++ later) := by
  unfold sectionTitle? sectionCalls
  split_ifs
  · exact follows
  · exact sectionsCalls_cons_eq_ok_iff.mpr ⟨_, key, none, [], later, headingCalls_singleton metadata key,
      textCalls_blank key, follows, rfl⟩
  · exact sectionsCalls_cons_eq_ok_iff.mpr ⟨_, key, none, [], later,
      headingCalls_visibility metadata key method.visibility, textCalls_blank key, follows, rfl⟩
  · exact follows

private theorem headingCalls_method {metadata : Metadata} {key : String} {method : Method}
    (plain : PlainMethod method) (state : SectionState) :
    headingCalls metadata (some key) ⟨methodLevel state, (title method).toList⟩ =
      .ok (if state.inSection then [] else [.exitSingleton key], key,
        some ⟨method.name, method.parameters, titledBinding method.binding⟩) := by
  have read := readTitle_title plain.titled
  have other := ofText?_title plain.titled plain.unreserved
  have apart := title_ne_singleton plain.titled
  unfold methodLevel
  cases state.inSection with
  | true => exact (headingCalls_within_iff (by simp)).mpr ⟨rfl, .subsection rfl read⟩
  | false =>
    refine (headingCalls_within_iff (by simp)).mpr ⟨rfl, .leaving (by simp) ?_ apart read⟩
    rwa [String.ofList_toList]

/-- Written methods are read as their calls. -/
theorem sectionsCalls_methodParts {settings : RenderSettings} {metadata : Metadata} {key : String}
    (language : ∀ c ∈ settings.fenceLanguage.toList, isBlank c = false) {methods : List Method}
    (plain : ∀ method ∈ methods, PlainMethod method) (state : SectionState) {rest : List Section}
    {later : List Call} (follows : sectionsCalls metadata (some key) rest = .ok later) :
    sectionsCalls metadata (some key) (methodParts settings state methods ++ rest) =
      .ok (methodCalls key state methods ++ later) := by
  induction methods generalizing state with
  | nil => exact follows
  | cons method more ih =>
    have held := plain method List.mem_cons_self
    have tail := ih (fun other member => plain other (List.mem_cons_of_mem _ member)) (nextState state method)
    have text : textCalls key (some ⟨method.name, method.parameters, titledBinding method.binding⟩)
        (part (methodLevel (nextState state method)) (title method) (bodyLines settings method)).text =
        .ok [.addMethod key (writtenEntry method)] := by
      rw [part, textCalls_concat_nil, textCalls, entryOf, bodyOf_bodyLines held.body language]
      rfl
    have body := sectionsCalls_cons_eq_ok_iff.mpr ⟨_, key, _, _, _,
      @headingCalls_method metadata key _ held (nextState state method), text, tail, rfl⟩
    rw [methodParts, List.append_assoc, List.cons_append, sectionsCalls_section body, methodCalls]
    simp

/-! ## Units -/

def writtenCalls (metadata : Metadata) (opened : Bool) (unit : RubyUnit) : List Call :=
  (openingCalls unit.kind unit.path ++
      if opened then [] else frontMatterCalls metadata unit.kind unit.qualifiedName) ++
    ((declarationPairs unit.qualifiedName unit).map (·.2) ++ methodCalls unit.qualifiedName {} unit.methods)

/-- The calls of written units; front matter describes the first one. -/
def writtenCallsAll (metadata : Metadata) : Bool → List RubyUnit → List Call
  | _, [] => []
  | opened, unit :: rest => writtenCalls metadata opened unit ++ writtenCallsAll metadata true rest

private theorem sectionsCalls_unitParts {settings : RenderSettings} {metadata : Metadata}
    (language : ∀ c ∈ settings.fenceLanguage.toList, isBlank c = false)
    (untyped : metadata.get? "type" = none) (expressible : Expressible metadata) {unit : RubyUnit}
    (fair : FairUnit unit) (before : Option String) {rest : List Section} {later : List Call}
    (follows : sectionsCalls metadata (some unit.qualifiedName) rest = .ok later) :
    sectionsCalls metadata before (unitParts settings unit ++ rest) =
      .ok (writtenCalls metadata before.isSome unit ++ later) := by
  have methods := sectionsCalls_methodParts language fair.methods {} follows
  have whole : unit.path.contains "" = false := by
    rw [List.contains_eq_mem, decide_eq_false_iff_not]
    exact fun member => (fair.path "" member).given rfl
  have heads : headingCalls metadata before ⟨1, (unitTitle unit).toList⟩ =
      .ok (openingCalls unit.kind unit.path ++
          if before.isSome then [] else frontMatterCalls metadata unit.kind unit.qualifiedName,
        unit.qualifiedName, none) := by
    have worded : Worded (if before.isSome then [] else frontMatterData metadata unit.kind) := by
      split
      · simp
      · exact expressible.worded_frontMatterData unit.kind
    have opens := unitCalls_eq_ok_iff.mpr ⟨unit.kind, unitKind_unitTitle fair.path untyped,
      by simpa [unitPath_unitTitle fair.path] using whole, worded, rfl⟩
    rw [unitPath_unitTitle fair.path, unitKey_unitTitle fair.path] at opens
    unfold headingCalls
    rw [if_pos rfl, opens, unitKey_unitTitle fair.path]
    rfl
  have text : textCalls unit.qualifiedName none (part 1 (unitTitle unit)
      (if declarationPairs unit.qualifiedName unit = [] then []
      else "" :: (declarationPairs unit.qualifiedName unit).map (·.1))).text =
      .ok ((declarationPairs unit.qualifiedName unit).map (·.2)) := by
    have declared := textCalls_declarations (fair.declarations.readsAs unit.qualifiedName)
    rw [part, textCalls_concat_nil]
    split
    · next empty =>
      rw [empty]
      rfl
    · rw [List.map_cons, List.map_map]
      exact (textCalls_nil_cons _ _ _).trans declared
  rw [unitParts, List.cons_append]
  refine sectionsCalls_cons_eq_ok_iff.mpr ⟨_, _, _, _, _, heads, text, methods, ?_⟩
  simp only [writtenCalls, List.append_assoc]

/-- Written units are read as their calls. -/
theorem sectionsCalls_units {settings : RenderSettings} {metadata : Metadata}
    (language : ∀ c ∈ settings.fenceLanguage.toList, isBlank c = false)
    (untyped : metadata.get? "type" = none) (expressible : Expressible metadata) {units : List RubyUnit}
    (fair : ∀ unit ∈ units, FairUnit unit) (before : Option String) :
    sectionsCalls metadata before (units.flatMap (unitParts settings)) =
      .ok (writtenCallsAll metadata before.isSome units) := by
  induction units generalizing before with
  | nil => rfl
  | cons unit rest ih =>
    have later := ih (fun other member => fair other (List.mem_cons_of_mem _ member))
      (some unit.qualifiedName)
    exact sectionsCalls_unitParts language untyped expressible (fair unit List.mem_cons_self) before later

end LiterateRuby.Literate
