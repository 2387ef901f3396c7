import LiterateRuby.Proofs.Literate.Heading
import LiterateRuby.Proofs.Literate.Stretch
import LiterateRuby.Session

/-! # The methods that a text gives

Nothing leaks from one stretch into the next, even of the same unit, and a method is the same whenever
its body comes to an end. `read_methods` says that the methods which a text gives a unit are the method
headings of its stretches, each read by the headings before it in its stretch.
-/

namespace LiterateRuby.Literate

open Draft (Call methodsAfter)

/-- The methods that sections give to a unit: those of the open stretch, if it is the unit's, and those
of its later stretches. -/
theorem sectionsCalls_methods {metadata : Metadata} {unit : Option String} {parts : List Section}
    {calls : List Call} (success : sectionsCalls metadata unit parts = .ok calls)
    (levels : ∀ part ∈ parts, part.heading.level = 1 ∨ part.heading.level = 2 ∨ part.heading.level = 3)
    {before : List Heading} (key : String) {state : MethodState}
    (takes : unit = some key → Takes before state) :
    (methodsAfter key state calls).methods.map Except.ok =
      state.methods.map Except.ok ++
        ((if unit = some key then methodsOf before (stretches parts).1 else []) ++
          ((stretches parts).2.filter (·.unit == key)).flatMap Stretch.methods) := by
  induction parts generalizing unit calls before state with
  | nil =>
    cases success
    simp [stretches, methodsOf]
  | cons part rest ih =>
    obtain ⟨opening, inside, method, content, later, opens, holds, follows, rfl⟩ :=
      sectionsCalls_cons_eq_ok_iff.mp success
    have further := fun other member => levels other (List.mem_cons_of_mem part member)
    rw [← List.append_assoc, Draft.methodsAfter_append]
    rcases headingCalls_cases opens with ⟨first, rfl, rfl, made⟩ | ⟨first, rfl, moves⟩
    · -- a new stretch begins, with the state reset if it is the unit's
      have quiet := textCalls_quiet holds
      rw [Draft.methodsAfter_append, Draft.methodsAfter_of_quiet fun call made _ => quiet call made,
        unitCalls_methods made]
      simp only [stretches, if_pos first]
      by_cases same : unitKey part.heading.title = key
      · rw [if_pos same, ih follows further fun _ => takes_nothing state]
        simp [same, methodsOf, Stretch.unit, Stretch.methods]
      · have other : some (unitKey part.heading.title) ≠ some key := by simpa using same
        rw [if_neg same, @ih _ _ follows further before state fun reached => absurd reached other,
          if_neg other]
        simp [same, methodsOf, Stretch.unit]
    · have second : part.heading.level = 2 ∨ part.heading.level = 3 :=
        (levels part List.mem_cons_self).resolve_left first
      simp only [stretches, if_neg first]
      by_cases same : inside = key
      · subst same
        obtain ⟨_, after, added⟩ := section_methods opens holds second (takes rfl)
        rw [ih follows further fun _ => after, added]
        simp [methodsOf]
      · have other : some inside ≠ some key := by simpa using same
        have elsewhere : ∀ call ∈ opening ++ content, call.unit? ≠ some key := by
          intro call made
          have addressed : call.unit? = some inside :=
            (List.mem_append.mp made).elim (fun made => (moves call made).unit?_eq) (textCalls_unit holds call)
          rwa [addressed]
        rw [Draft.methodsAfter_of_elsewhere elsewhere,
          @ih _ _ follows further before state fun reached => absurd reached other, if_neg other,
          if_neg other]

/-- Every stretch opens its unit. -/
theorem sectionsCalls_opens {metadata : Metadata} {unit : Option String} {parts : List Section}
    {calls : List Call} (success : sectionsCalls metadata unit parts = .ok calls) {stretch : Stretch}
    (member : stretch ∈ (stretches parts).2) : ∃ call ∈ calls, call.unit? = some stretch.unit := by
  induction parts generalizing unit calls with
  | nil => simp [stretches] at member
  | cons part rest ih =>
    obtain ⟨opening, inside, method, content, later, opens, holds, follows, rfl⟩ :=
      sectionsCalls_cons_eq_ok_iff.mp success
    have old (within : stretch ∈ (stretches rest).2) :
        ∃ call ∈ opening ++ (content ++ later), call.unit? = some stretch.unit := by
      obtain ⟨call, made, address⟩ := ih follows within
      exact ⟨call, List.mem_append_right _ (List.mem_append_right _ made), address⟩
    rw [stretches] at member
    split at member
    · next first =>
      rcases List.mem_cons.mp member with rfl | within
      · obtain ⟨_, _, _, made⟩ := (headingCalls_cases opens).resolve_right fun inner => inner.1 first
        obtain ⟨call, inside, address⟩ := unitCalls_opens made
        exact ⟨call, List.mem_append_left _ inside, address⟩
      · exact old within
    · exact old member

theorem stretches_of_unheaded {parts : List Section} (unheaded : ∀ part ∈ parts, part.heading.level ≠ 1) :
    stretches parts = (parts, []) := by
  induction parts with
  | nil => rfl
  | cons part rest ih =>
    rw [stretches, if_neg (unheaded part List.mem_cons_self),
      ih fun other member => unheaded other (List.mem_cons_of_mem _ member)]

/-- The stretches of a text are those of its sections. -/
theorem stretchesOf_eq [DataFormat] {filename : Option String} {text : String} {front : FrontMatter}
    {parts : List Section} (splits : FrontMatter.split (Text.trim (Text.unixLines text.toList)) = .ok front)
    (cut : textSections? filename front = some parts) : stretchesOf filename text = (stretches parts).2 := by
  unfold textSections? at cut
  dsimp only at cut
  rw [stretchesOf, splits]
  dsimp only
  split_ifs at cut ⊢ with headed
  · cases cut
    rfl
  · obtain ⟨name, inferred, rfl⟩ := Option.map_eq_some_iff.mp cut
    rw [inferred, stretches, if_pos rfl, stretches_of_unheaded]
    intro part member first
    refine headed (List.any_eq_true.mpr ⟨part.heading, mem_headings_of_section member, ?_⟩)
    simp [first]

/-- The calls of a text are those of its front matter for the document and those of its sections. -/
theorem callsOf_cases [DataFormat] {filename : Option String} {text : String} {calls : List Call}
    (success : callsOf filename text = .ok calls) :
    ∃ front parts rest, FrontMatter.split (Text.trim (Text.unixLines text.toList)) = .ok front ∧
      textSections? filename front = some parts ∧ stretchesOf filename text = (stretches parts).2 ∧
      sectionsCalls front.metadata none parts = .ok rest ∧
      calls = documentCalls front.metadata ++ rest := by
  obtain ⟨_, front, splits, _, parts, cut, rest, follows, rfl⟩ := callsOf_eq_ok_iff.mp success
  exact ⟨front, parts, rest, splits, cut, stretchesOf_eq splits cut, follows, rfl⟩

/-- Each heading is one of the lines. -/
theorem exists_line_of_heading {fenced : Bool} {lines : List (List Char)} {heading : Heading}
    (member : heading ∈ headings (scan fenced lines)) : ∃ line ∈ lines, heading? line = some heading := by
  induction lines generalizing fenced with
  | nil => cases member
  | cons line rest ih =>
    have later {fenced : Bool} (within : heading ∈ headings (scan fenced rest)) :
        ∃ other ∈ line :: rest, heading? other = some heading := by
      obtain ⟨other, listed, found⟩ := ih within
      exact ⟨other, List.mem_cons_of_mem _ listed, found⟩
    unfold scan at member
    split at member
    · exact later member
    · split at member
      · next first found =>
        rcases List.mem_cons.mp member with rfl | within
        · exact ⟨line, List.mem_cons_self, found⟩
        · exact later within
      · exact later member

/-- Headings have one of three levels. -/
theorem scan_levels (fenced : Bool) (lines : List (List Char)) :
    ∀ heading ∈ headings (scan fenced lines),
      heading.level = 1 ∨ heading.level = 2 ∨ heading.level = 3 := by
  intro heading member
  obtain ⟨line, -, found⟩ := exists_line_of_heading member
  exact heading?_level found

/-- The headings of the sections of a text have one of three levels. -/
theorem levels_of_textSections? {filename : Option String} {front : FrontMatter} {parts : List Section}
    (cut : textSections? filename front = some parts) :
    ∀ part ∈ parts, part.heading.level = 1 ∨ part.heading.level = 2 ∨ part.heading.level = 3 := by
  have scanned := scan_levels false (Text.lines front.body)
  unfold textSections? at cut
  dsimp only at cut
  split at cut
  · cases cut
    exact fun part member => scanned _ (mem_headings_of_section member)
  · obtain ⟨name, _, rfl⟩ := Option.map_eq_some_iff.mp cut
    rintro part (_ | ⟨_, member⟩)
    · exact .inl rfl
    · exact scanned _ (mem_headings_of_section member)

/-- The calls of a text give a unit the methods of its stretches. -/
theorem callsOf_methods [DataFormat] {filename : Option String} {text : String} {calls : List Call}
    (success : callsOf filename text = .ok calls) (key : String) :
    (methodsAfter key {} calls).methods.map Except.ok =
      ((stretchesOf filename text).filter (·.unit == key)).flatMap Stretch.methods := by
  obtain ⟨front, parts, rest, _, cut, told, follows, rfl⟩ := callsOf_cases success
  have document : ∀ call ∈ documentCalls front.metadata, call.Quiet := by
    simp [documentCalls, Call.Quiet]
  rw [Draft.methodsAfter_append, Draft.methodsAfter_of_quiet fun call made _ => document call made,
    @sectionsCalls_methods _ _ _ _ follows (levels_of_textSections? cut) [] key {} (by simp), told]
  simp

/-- Every stretch of a text opens its unit. -/
theorem callsOf_opens [DataFormat] {filename : Option String} {text : String} {calls : List Call}
    (success : callsOf filename text = .ok calls) {stretch : Stretch}
    (member : stretch ∈ stretchesOf filename text) :
    ∃ call ∈ calls, call.unit? = some stretch.unit := by
  obtain ⟨front, parts, rest, _, _, told, follows, rfl⟩ := callsOf_cases success
  rw [told] at member
  obtain ⟨call, made, address⟩ := sectionsCalls_opens follows member
  exact ⟨call, List.mem_append_right _ made, address⟩

private theorem bindingOf_ne_inSingleton (name : List Char) : (bindingOf name).1 ≠ .inSingleton := by
  unfold bindingOf
  split
  · simp
  · dsimp only
    split <;> simp

/-- No title puts a method into the singleton block. -/
theorem binding_of_readTitle {title : List Char} {method : MethodTitle}
    (success : readTitle title = .ok method) : method.binding ≠ .inSingleton := by
  obtain ⟨parameters, _, same⟩ := Except.bind_eq_ok_iff.mp success
  cases same
  exact bindingOf_ne_inSingleton _

private theorem public_of_mem_methodsOf {before : List Heading} {parts : List Section} {method : Method}
    (member : .ok method ∈ methodsOf before parts) (inBlock : method.binding = .inSingleton) :
    method.visibility = .pub := by
  induction parts generalizing before with
  | nil => simp [methodsOf] at member
  | cons part rest ih =>
    rcases List.mem_append.mp member with own | later
    · split at own
      · obtain ⟨title, titled, same⟩ := Except.bind_eq_ok_iff.mp (List.mem_singleton.mp own).symm
        cases same
        dsimp only at inBlock ⊢
        split at inBlock
        · next inside =>
          simp only [Bool.and_eq_true] at inside
          exact visibilityAfter_of_inBlock inside.1.2
        · exact absurd inBlock (binding_of_readTitle titled)
      · cases own
    · exact ih later

/-- Every stretch of a text that is read names a unit of it. -/
theorem mem_names_of_stretch [DataFormat] {filename : Option String} {text : String} {document : Document}
    (success : (read filename text).result = .ok document) {stretch : Stretch}
    (member : stretch ∈ stretchesOf filename text) : stretch.unit ∈ document.units.map (·.qualifiedName) := by
  obtain ⟨calls, draft, made, -, holds, rfl⟩ := read_eq_ok_iff.mp success
  obtain ⟨call, inside, address⟩ := callsOf_opens made member
  rw [holds.sound.names_eq]
  exact holds.addressed call inside _ address

/-- A unit of a text that is read has the methods of its stretches. -/
theorem methods_of_read [DataFormat] {filename : Option String} {text : String} {document : Document}
    (success : (read filename text).result = .ok document) {unit : RubyUnit} (member : unit ∈ document.units) :
    unit.methods.map Except.ok =
      ((stretchesOf filename text).filter (·.unit == unit.qualifiedName)).flatMap Stretch.methods := by
  obtain ⟨calls, draft, made, run, holds, rfl⟩ := read_eq_ok_iff.mp success
  rw [holds.sound.methods_of_document member, run.methodState]
  exact callsOf_methods made unit.qualifiedName

/-- The methods of each unit of a text are the method headings of the unit's stretches, in the order of
the text; and what stands in a singleton block is public. -/
theorem read_methods [DataFormat] {filename : Option String} {text : String} {document : Document}
    (success : (read filename text).result = .ok document) :
    (∀ stretch ∈ stretchesOf filename text, stretch.unit ∈ document.units.map (·.qualifiedName)) ∧
      ∀ unit ∈ document.units,
        unit.methods.map Except.ok =
            ((stretchesOf filename text).filter (·.unit == unit.qualifiedName)).flatMap Stretch.methods ∧
          ∀ method ∈ unit.methods, method.binding = .inSingleton → method.visibility = .pub := by
  refine ⟨fun stretch => mem_names_of_stretch success, fun unit member => ⟨methods_of_read success member, ?_⟩⟩
  intro method within inBlock
  have listed : (.ok method : Except Parameter.Flaw Method) ∈ unit.methods.map Except.ok :=
    List.mem_map_of_mem within
  rw [methods_of_read success member] at listed
  obtain ⟨stretch, _, inside⟩ := List.mem_flatMap.mp listed
  exact public_of_mem_methodsOf inside inBlock

/-- A unit that is opened again starts public and outside of its singleton block. -/
theorem read_methods_of_reopened :
    ∃ document, (read none "# A\n## private\n## x\n## class << self\n### y\n# B\n## z\n# A\n## w").result =
        .ok document ∧
      (∀ stretch ∈ stretchesOf none "# A\n## private\n## x\n## class << self\n### y\n# B\n## z\n# A\n## w",
        stretch.unit ∈ document.units.map (·.qualifiedName)) ∧
      ∀ unit ∈ document.units,
        unit.methods.map Except.ok =
            ((stretchesOf none "# A\n## private\n## x\n## class << self\n### y\n# B\n## z\n# A\n## w").filter
              (·.unit == unit.qualifiedName)).flatMap Stretch.methods ∧
          ∀ method ∈ unit.methods, method.binding = .inSingleton → method.visibility = .pub := by
  obtain ⟨document, success⟩ := Except.exists_of_isOk (show (read none
    "# A\n## private\n## x\n## class << self\n### y\n# B\n## z\n# A\n## w").result.isOk = true by decide +kernel)
  exact ⟨document, success, read_methods success⟩

end LiterateRuby.Literate
