import LiterateRuby.Proofs.Literate.Unfenced

/-! # Methods without their bodies

A heading says of a method what is known without its body: its name and its parameters, and with the headings before
it how it is bound and who may call it (`profileOf`). What a title says has no line break and no blanks around the
name (`unbroken_of_readTitle`, `trimmed_of_readTitle`).
-/

namespace LiterateRuby

/-- What is known of a method without its body and its prose. -/
structure Profile where
  name : String
  binding : Binding
  visibility : Visibility
  parameters : List Parameter
  deriving DecidableEq, Repr

def Method.profile (method : Method) : Profile :=
  ⟨method.name, method.binding, method.visibility, method.parameters⟩

namespace Literate

open Text (isBlank trim Trimmed Unbroken)

/-! ## What titles say -/

private theorem unbroken_of_subset {cs ds : List Char} (unbroken : Unbroken cs) (within : ds ⊆ cs) : Unbroken ds :=
  fun c member => unbroken c (within member)

private theorem subset_of_mem_splitCommas {nesting : Nesting} {cs piece : List Char}
    (member : piece ∈ splitCommas nesting cs) : piece ⊆ cs := by
  induction cs generalizing nesting piece with
  | nil =>
    rw [List.mem_singleton.mp member]
    exact List.nil_subset _
  | cons c rest ih =>
    unfold splitCommas at member
    split at member
    · rcases List.mem_cons.mp member with rfl | later
      · exact List.nil_subset _
      · exact List.Subset.trans (ih later) (List.subset_cons_self c rest)
    · split at member
      · next empty => exact absurd empty (splitCommas_ne_nil _ _)
      · next first more pieces =>
        rcases List.mem_cons.mp member with rfl | later
        · exact List.cons_subset_cons c (ih (pieces ▸ List.mem_cons_self))
        · exact List.Subset.trans (ih (pieces ▸ List.mem_cons_of_mem _ later)) (List.subset_cons_self c rest)

private theorem subset_of_mem_splitParameters {cs token : List Char} (member : token ∈ splitParameters cs) :
    token ⊆ cs := by
  obtain ⟨piece, listed, rfl⟩ := List.mem_map.mp (List.mem_of_mem_filter member)
  exact List.Subset.trans (Text.trim_within piece).subset (subset_of_mem_splitCommas listed)

private theorem subset_of_parenthesized? {cs inner : List Char} (found : parenthesized? cs = some inner) :
    inner ⊆ cs := by
  unfold parenthesized? at found
  split at found
  · next opening after rest =>
    split at found
    · next closing before turned =>
      cases found
      intro c member
      have behind : c ∈ after.reverse :=
        (List.dropWhile_sublist (· != ')')).subset (turned ▸ List.mem_cons_of_mem _ (List.mem_reverse.mp member))
      exact (List.dropWhile_sublist (· != '(')).subset (rest ▸ List.mem_cons_of_mem _ (List.mem_reverse.mp behind))
    · cases found
  · cases found

/-- A parameter is written on one line if its parts are. -/
theorem unbroken_text {parameter : Parameter} (name : Unbroken parameter.name.toList)
    (default : ∀ value, parameter.default? = some value → Unbroken value.toList) :
    Unbroken parameter.text.toList := by
  cases parameter with
  | optional own value => simpa [Parameter.text, Parameter.name] using And.intro name (default value rfl)
  | optionalKeyword own value => simpa [Parameter.text, Parameter.name] using And.intro name (default value rfl)
  | forward => simp [Parameter.text]
  | _ => simpa [Parameter.text, Parameter.name] using name

private theorem unbroken_trimmedText {cs : List Char} (unbroken : Unbroken cs) :
    Unbroken (trimmedText cs).toList := by
  rw [trimmedText, String.toList_ofList]
  exact unbroken_of_subset unbroken (Text.trim_within cs).subset

/-- A parameter that is read from one line is written on one. -/
theorem unbroken_of_readParameter {token : List Char} {parameter : Parameter}
    (read : readParameter token = .ok parameter) (unbroken : Unbroken token) : Unbroken parameter.text.toList := by
  have named {cs : List Char} (within : cs ⊆ token) : Unbroken (String.ofList cs).toList := by
    rw [String.toList_ofList]
    exact unbroken_of_subset unbroken within
  have trimmed {cs : List Char} (within : cs ⊆ token) : Unbroken (trimmedText cs).toList :=
    unbroken_trimmedText (unbroken_of_subset unbroken within)
  have bare {held : Parameter} (own : Unbroken held.name.toList) (absent : held.default? = none) :
      Unbroken held.text.toList := unbroken_text own (by simp [absent])
  cases says_of_readParameter read with
  | forward => exact bare (by simp [Parameter.name]) rfl
  | block name | rest name => exact bare (trimmed (List.subset_cons_self _ _)) rfl
  | keywordRest name => exact bare (trimmed fun c member => by simp [member]) rfl
  | optional _ _ _ _ | optionalKeyword _ _ _ =>
    refine unbroken_text (named (List.subset_append_left _ _)) ?_
    rintro _ ⟨⟩
    exact trimmed fun c member => by simp [member]
  | requiredKeyword _ _ _ => exact bare (named (List.subset_append_left _ _)) rfl
  | required _ => exact bare (named (List.Subset.refl _)) rfl

/-- A title that is read from one line says a name and parameters that are written on one. -/
theorem unbroken_of_readTitle {cs : List Char} {found : MethodTitle} (read : readTitle cs = .ok found)
    (unbroken : Unbroken cs) :
    Unbroken found.name.toList ∧ ∀ parameter ∈ found.parameters, Unbroken parameter.text.toList := by
  obtain ⟨parameters, tokens, same⟩ := Except.bind_eq_ok_iff.mp read
  cases same
  constructor
  · have own : (bindingOf (trim (cs.takeWhile (· != '(')))).2 ⊆ cs := by
      have name : trim (cs.takeWhile (· != '(')) ⊆ cs :=
        List.Subset.trans (Text.trim_within _).subset (List.takeWhile_sublist (· != '(')).subset
      refine List.Subset.trans ?_ name
      unfold bindingOf
      split
      · next bare after =>
        rw [Text.after?_eq_some_iff.mp after]
        exact List.subset_append_right _ _
      · exact List.Subset.refl _
    dsimp only
    rw [String.toList_ofList]
    exact unbroken_of_subset unbroken own
  · intro parameter member
    obtain ⟨token, listed, made⟩ := Except.exists_of_mem_mapM tokens member
    refine unbroken_of_readParameter made (unbroken_of_subset unbroken ?_)
    cases inside : parenthesized? cs with
    | none =>
      rw [inside] at listed
      cases listed
    | some inner =>
      rw [inside] at listed
      exact List.Subset.trans (subset_of_mem_splitParameters listed) (subset_of_parenthesized? inside)

/-- A title that says the name of a method holds it without blanks around it. -/
theorem trimmed_of_readTitle {cs : List Char} {found : MethodTitle} {method : Method}
    (read : readTitle cs = .ok found) (name : found.name = method.name)
    (binding : found.binding = titledBinding method.binding) : Trimmed (Render.definedName method).toList := by
  obtain ⟨parameters, -, same⟩ := Except.bind_eq_ok_iff.mp read
  cases same
  rw [definedName_of_bindingOf binding name]
  exact Text.trimmed_trim _

/-! ## What headings say -/

/-- The profile that a heading says, with the headings that stand before it in its stretch. -/
def profileOf (before : List Heading) (heading : Heading) : Except Parameter.Flaw Profile := do
  let title ← readTitle heading.title
  let inBlock := heading.level == 3 && inBlockAfter before
  return {
    name := title.name
    binding := if inBlock && title.binding == .onInstance then .inSingleton else title.binding
    visibility := visibilityAfter before
    parameters := title.parameters }

/-- The profiles that headings say, with the headings that stand before them in their stretch. -/
def profilesOf (before : List Heading) : List Heading → List (Except Parameter.Flaw Profile)
  | [] => []
  | heading :: rest =>
    (if heading.isMethod then [profileOf before heading] else []) ++ profilesOf (before ++ [heading]) rest

private theorem map_profile_methodOf (before : List Heading) (part : Section) :
    (methodOf before part).map Method.profile = profileOf before part.heading := by
  unfold methodOf profileOf
  cases readTitle part.heading.title <;> rfl

/-- The bodies of methods do not matter for their profiles. -/
theorem map_profile_methodsOf (before : List Heading) (parts : List Section) :
    (methodsOf before parts).map (Except.map Method.profile) = profilesOf before (parts.map (·.heading)) := by
  induction parts generalizing before with
  | nil => rfl
  | cons part rest ih =>
    rw [methodsOf, List.map_append, ih, List.map_cons, profilesOf, ← map_profile_methodOf]
    split <;> rfl

/-- A heading that is that of a method changes nothing for the methods after it, but leaves the singleton block if it
is of level two. -/
theorem after_method {heading : Heading} (titled : heading.isMethod = true) (before : List Heading) :
    visibilityAfter (before ++ [heading]) = visibilityAfter before ∧
      inBlockAfter (before ++ [heading]) = (heading.level == 3 && inBlockAfter before) := by
  rw [visibilityAfter_concat, inBlockAfter_concat]
  unfold Heading.isMethod at titled
  by_cases third : heading.level = 3
  · have sets : heading.sets? = none := if_neg (by omega)
    simp [sets, third]
  · have second : heading.level = 2 ∧ heading.sets? = none := by simpa [third] using titled
    have outside : heading.opensBlock = false := by
      have unset := second.2
      rw [Heading.sets?, if_pos second.1, Option.or_eq_none_iff] at unset
      have other : heading.title ≠ singletonTitle := fun same => by simp [same] at unset
      simp [Heading.opensBlock, other]
    simp [second.1, second.2, outside]

/-! ## What stands on one line -/

/-- The text under front matter stands in the whole text. -/
theorem unix_body [DataFormat] {text : List Char} (unix : '\r' ∉ text) {front : FrontMatter}
    (splits : FrontMatter.split text = .ok front) : '\r' ∉ front.body := by
  have shorter {ls : List (List Char)} (within : ls ⊆ Text.lines text) : '\r' ∉ Text.unlines ls := by
    intro member
    rcases Text.mem_unlines member with feed | ⟨line, listed, inside⟩
    · exact absurd feed (by decide)
    · exact unix (Text.mem_of_mem_lines (within listed) inside)
  unfold FrontMatter.split at splits
  split at splits
  · next first rest cut =>
    split at splits
    · split at splits
      · cases splits
      · next closing body after =>
        obtain ⟨metadata, -, same⟩ := Except.bind_eq_ok_iff.mp splits
        cases same
        refine shorter fun line member => cut ▸ List.mem_cons_of_mem _ ?_
        exact (List.dropWhile_sublist _).subset (after ▸ List.mem_cons_of_mem _ member)
    · cases splits
      exact unix
  · cases splits
    exact unix

/-- The title of a heading stands on one line. -/
theorem unbroken_of_section [DataFormat] {text : String} {part : Section} (member : part ∈ sectionsOf text) :
    Unbroken part.heading.title := by
  unfold sectionsOf at member
  split at member
  · next front splits =>
    obtain ⟨line, listed, found⟩ := exists_line_of_heading (mem_headings_of_section member)
    obtain ⟨⟨level, title⟩, parts, same⟩ := Option.map_eq_some_iff.mp found
    obtain ⟨gap, gaps, -, -, rfl, -⟩ := headingParts?_eq_some_iff.mp parts
    have unix := unix_body (fun inside => Text.unix_unixLines _ ((Text.trim_within _).subset inside)) splits
    intro c within
    have inside : c ∈ title := (Text.trimEnd_starts title).subset (by rw [← same] at within; exact within)
    have here := List.mem_append_right (List.replicate level '#') (List.mem_append_right (gap :: gaps) inside)
    refine ⟨?_, ?_⟩
    · rintro rfl
      exact Text.flat_of_mem_lines listed here
    · rintro rfl
      exact unix (Text.mem_of_mem_lines listed here)
  · cases member

private theorem subset_of_mem_splitScope {cs piece : List Char} (member : piece ∈ Text.splitScope cs) :
    piece ⊆ cs := by
  fun_induction Text.splitScope cs generalizing piece with
  | case1 => simp_all
  | case2 rest ih =>
    rcases List.mem_cons.mp member with rfl | later
    · exact List.nil_subset _
    · exact List.Subset.trans (ih later) (fun c inside => by simp [inside])
  | case3 c rest single nothing ih => exact absurd nothing (Text.splitScope_ne_nil rest)
  | case4 c rest single first more pieces ih =>
    rcases List.mem_cons.mp member with rfl | later
    · exact List.cons_subset_cons c (ih (pieces ▸ List.mem_cons_self))
    · exact List.Subset.trans (ih (pieces ▸ List.mem_cons_of_mem _ later)) (List.subset_cons_self c rest)

/-- A title on one line names a unit on one. -/
theorem unbroken_unitKey {title : List Char} (unbroken : Unbroken title) : Unbroken (unitKey title).toList := by
  have within : ((kindInTitle? title).map (·.2)).getD title ⊆ title := by
    cases found : kindInTitle? title with
    | none => exact List.Subset.refl _
    | some head =>
      obtain ⟨word, gap, more, rfl, same⟩ := exists_name_of_kindInTitle? found
      rw [Option.map_some, Option.getD_some, same]
      intro c inside
      exact List.mem_append_right _ (List.mem_cons_of_mem _ ((Text.trim_within more).subset inside))
  rw [unitKey, unitPath, toList_joinScope]
  refine Text.unbroken_intercalate (by simp) fun piece member => ?_
  obtain ⟨segment, listed, rfl⟩ := List.mem_map.mp member
  obtain ⟨part, among, rfl⟩ := List.mem_map.mp listed
  exact unbroken_trimmedText (unbroken_of_subset unbroken (List.Subset.trans (subset_of_mem_splitScope among) within))

private theorem exists_section_of_stretch {parts : List Section} {stretch : Stretch}
    (listed : stretch ∈ (stretches parts).2) :
    ∃ part ∈ parts, part.heading.title = stretch.title := by
  induction parts with
  | nil => cases listed
  | cons part rest ih =>
    have later (within : stretch ∈ (stretches rest).2) :
        ∃ other ∈ part :: rest, other.heading.title = stretch.title := by
      obtain ⟨other, member, same⟩ := ih within
      exact ⟨other, List.mem_cons_of_mem _ member, same⟩
    rw [stretches] at listed
    split at listed
    · rcases List.mem_cons.mp listed with rfl | within
      · exact ⟨part, List.mem_cons_self, rfl⟩
      · exact later within
    · exact later listed

/-- Each method has its name and its parameters from a title. -/
theorem exists_title_of_method {before : List Heading} {parts : List Section} {method : Method}
    (member : .ok method ∈ methodsOf before parts) :
    ∃ part ∈ parts, ∃ found, readTitle part.heading.title = .ok found ∧ found.name = method.name ∧
      found.parameters = method.parameters := by
  induction parts generalizing before with
  | nil => cases member
  | cons part rest ih =>
    rw [methodsOf] at member
    rcases List.mem_append.mp member with own | later
    · split at own
      · obtain ⟨found, titled, same⟩ := Except.bind_eq_ok_iff.mp (List.mem_singleton.mp own).symm
        cases same
        exact ⟨part, List.mem_cons_self, found, titled, rfl, rfl⟩
      · cases own
    · obtain ⟨other, listed, found⟩ := ih later
      exact ⟨other, List.mem_cons_of_mem _ listed, found⟩

/-- What is read from a text that starts with a unit heading has a name and method titles on one line. -/
theorem unbroken_of_read [DataFormat] {text : String} {front : FrontMatter} {part : Section}
    (splits : FrontMatter.split (Text.trim (Text.unixLines text.toList)) = .ok front)
    (headed : (sectionsOf text).head? = some part) (first : part.heading.level = 1) {document : Document}
    (success : (read none text).result = .ok document) {unit : RubyUnit} (member : unit ∈ document.units) :
    Unbroken unit.qualifiedName.toList ∧ ∀ method ∈ unit.methods, Unbroken (title method).toList := by
  constructor
  · obtain ⟨stretch, listed, around⟩ := around_of_read splits headed first success member
    obtain ⟨opening, among, same⟩ := exists_section_of_stretch listed
    have key : Unbroken stretch.unit.toList := unbroken_unitKey (same ▸ unbroken_of_section among)
    rcases around with whole | ⟨rest, whole⟩
    · exact whole ▸ key
    · refine unbroken_of_subset key fun c inside => ?_
      rw [whole]
      simp [inside]
  · intro method within
    have listed : (.ok method : Except Parameter.Flaw Method) ∈ unit.methods.map Except.ok :=
      List.mem_map_of_mem within
    rw [methods_of_read success member, stretchesOf_of_headed splits headed first] at listed
    obtain ⟨stretch, among, inside⟩ := List.mem_flatMap.mp listed
    obtain ⟨inner, stands, found, read, name, parameters⟩ := exists_title_of_method inside
    have title := unbroken_of_section (mem_of_mem_stretches (.inr ⟨stretch, (List.mem_filter.mp among).1, stands⟩))
    obtain ⟨own, each⟩ := unbroken_of_readTitle read title
    exact unbroken_title (name ▸ own) (parameters ▸ each)

end Literate

end LiterateRuby
