import LiterateRuby.Proofs.Literate.Proper
import LiterateRuby.Proofs.Literate.Shown
import LiterateRuby.Proofs.Literate.WholeText
import LiterateRuby.Proofs.Yaml.Write

/-! # A document comes back from its text

A document that the notation can hold (`PlainDocument`) is written as a text that is read again, whatever
the file is called, and the document that is read renders the same Ruby code (`ruby_of_reread`). Two things
carry the proof: the reread units stand at the paths that lead to the written ones, in the order in which
those paths are first needed, which makes the same forest (`Reread.shape_eq`); and at each path the same
shows (`Reread.shownUnit?_eq`).
-/

namespace LiterateRuby.Branch

open Literate (pathsTo)

/-! ## Paths -/

/-- The paths that lead from one path to a longer one add no more than the longer one. -/
theorem addPaths_pathsTo (above rest : List String) (branches : List Branch) :
    addPaths (pathsTo above rest) (addPath above branches) = addPath (above ++ rest) branches := by
  induction rest generalizing above with
  | nil => rw [List.append_nil]; rfl
  | cons name rest ih =>
    have step := ih (above ++ [name])
    rw [List.append_assoc, List.singleton_append] at step
    rw [← step, pathsTo, addPaths, List.foldl_cons, addPath_absorb]
    rfl

/-- Leading to every path adds no more than the paths. -/
theorem addPaths_flatMap_pathsTo (paths : List (List String)) (branches : List Branch) :
    addPaths (paths.flatMap (pathsTo [])) branches = addPaths paths branches := by
  induction paths generalizing branches with
  | nil => rfl
  | cons path rest ih =>
    have first := addPaths_pathsTo [] path branches
    rw [List.flatMap_cons, addPaths_append, ih]
    exact congrArg (addPaths rest) first

end LiterateRuby.Branch

namespace LiterateRuby.Literate

open Draft (Call slotRun? slotRun?_append)
open Branch (addPath addPaths addPaths_append)

/-- Mere namespaces stand right before a unit inside them. -/
def Led : List RubyUnit → Prop
  | [] => True
  | [last] => last.isNamespaceOnly = false
  | unit :: next :: rest => (unit.isNamespaceOnly = true → unit.path <+: next.scope) ∧ Led (next :: rest)

/-- Mere namespaces that stand right before a unit inside them leave no trace. -/
theorem Led.addPaths_eq {units : List RubyUnit} (led : Led units) (branches : List Branch) :
    addPaths (units.map (·.path)) branches =
      addPaths ((units.filter (!·.isNamespaceOnly)).map (·.path)) branches := by
  induction units generalizing branches with
  | nil => rfl
  | cons unit rest ih =>
    cases mere : unit.isNamespaceOnly with
    | false =>
      have later : Led rest := by
        cases rest with
        | nil => trivial
        | cons next following => exact led.2
      rw [List.filter_cons_of_pos (by simp [mere]), List.map_cons, List.map_cons]
      exact ih later (addPath unit.path branches)
    | true =>
      cases rest with
      | nil => exact absurd (mere.symm.trans led) (by decide)
      | cons next following =>
        obtain ⟨more, scope⟩ := led.1 mere
        have absorbed := Branch.addPath_absorb unit.path (more ++ [next.name]) branches
        rw [← List.append_assoc, scope] at absorbed
        rw [List.filter_cons_of_neg (by simp [mere]), ← ih led.2]
        exact congrArg (addPaths (following.map (·.path))) absorbed

/-- Mere namespaces can be left out if the other units lead to the same branches in the same order. -/
def Dispensable (document : Document) : Prop :=
  Branch.shape (Branch.forest (writtenUnits document)) = Branch.shape (Branch.forest document.units)

theorem dispensable_of_led {document : Document} (led : Led document.units) : Dispensable document := by
  rw [Dispensable, Branch.shape_forest, Branch.shape_forest, led.addPaths_eq]
  rfl

/-! ## Documents that the notation can hold -/

/-- A document that the notation can hold. -/
structure PlainDocument (document : Document) : Prop where
  flawless : document.flaw? = none
  /-- Some unit is more than a namespace. -/
  given : writtenUnits document ≠ []
  led : Led document.units
  units : ∀ unit ∈ writtenUnits document, PlainUnit unit
  mixins : ∀ unit ∈ writtenUnits document, PlainMixins unit
  /-- Only the first unit has a superclass, mixins or aliases. -/
  undescribed : ∀ unit ∈ (writtenUnits document).tail, Undescribed unit
  requires : ∀ name ∈ document.requires, name ≠ ""

/-- A document whose written units have bare names and hold what the notation can hold, in any order. -/
structure FairDocument (document : Document) : Prop where
  flawless : document.flaw? = none
  given : writtenUnits document ≠ []
  units : ∀ unit ∈ writtenUnits document, FairUnit unit
  mixins : ∀ unit ∈ writtenUnits document, PlainMixins unit
  undescribed : ∀ unit ∈ (writtenUnits document).tail, Undescribed unit
  requires : ∀ name ∈ document.requires, name ≠ ""

private theorem PlainDocument.fair {document : Document} (plain : PlainDocument document) : FairDocument document :=
  ⟨plain.flawless, plain.given, fun unit member => (plain.units unit member).fair, plain.mixins,
    plain.undescribed, plain.requires⟩

private theorem FairDocument.nodup_names {document : Document} (fair : FairDocument document) :
    (document.units.map (·.qualifiedName)).Nodup ∧ document.requires.Nodup :=
  Document.flaw?_eq_none_iff.mp fair.flawless

private theorem FairDocument.nodup_written {document : Document} (fair : FairDocument document) :
    ((writtenUnits document).map (·.qualifiedName)).Nodup :=
  (List.filter_sublist.map _).nodup fair.nodup_names.1

private theorem describedBy_of_undescribed {metadata : Metadata} {units : List RubyUnit}
    (undescribed : ∀ unit ∈ units, Undescribed unit) : DescribedBy metadata true units := by
  induction units with
  | nil => trivial
  | cons unit rest ih =>
    exact ⟨undescribed unit List.mem_cons_self,
      ih fun other member => undescribed other (List.mem_cons_of_mem _ member)⟩

/-! ## The reread document -/

/-- What a draft holds that the text of a document was read into. -/
structure Reread (document : Document) (draft : Draft) : Prop where
  sound : draft.Sound
  requires : draft.requires = document.requires
  keys : draft.units.keys =
    Text.distinct (((writtenUnits document).flatMap fun unit => pathsTo [] unit.path).map Text.joinScope)
  found : ∀ key, draft.units.get? key = slotAfter (writtenUnits document) key

private theorem flatMap_required_documentCalls (metadata : Metadata) :
    (documentCalls metadata).flatMap Call.required = FrontMatter.namesIn (metadata.get? "require") := by
  rw [documentCalls, List.flatMap_cons, List.flatMap_map]
  simp [Call.required]

private theorem slotAfter_nil (key : String) : slotAfter [] key = none := rfl

/-- The text of a fair document is read, into what `Reread` says. -/
theorem FairDocument.read_eq [DataFormat] {settings : RenderSettings}
    (language : ∀ c ∈ settings.fenceLanguage.toList, Text.isBlank c = false) {document : Document}
    (fair : FairDocument document) {unit : RubyUnit} {rest : List RubyUnit}
    (units : writtenUnits document = unit :: rest)
    (loads : frontMatter document (some unit) ≠ [] → DataFormat.Loads (frontMatter document (some unit)))
    (filename : Option String) :
    ∃ draft, Reread document draft ∧
      (read filename ("\n".intercalate (documentLines settings document (unit :: rest)) ++ "\n")).result =
        .ok draft.document := by
  have each := fair.units
  rw [units] at each
  have made := callsOf_write language each loads filename
  have described : DescribedBy (frontMetadata document unit) false (unit :: rest) := by
    have undescribed := fair.undescribed
    rw [units] at undescribed
    exact ⟨describes_first document unit, describedBy_of_undescribed undescribed⟩
  have once := fair.nodup_written
  have mixed := fair.mixins
  rw [units] at once mixed
  have slot (key : String) : slotRun? key none (documentCalls (frontMetadata document unit) ++
      writtenCallsAll (frontMetadata document unit) false (unit :: rest)) =
      some (slotAfter (unit :: rest) key) := by
    have all := @slotRun?_writtenCallsAll _ _ _ described [] each mixed once key
    rw [slotAfter_nil, List.nil_append] at all
    rw [slotRun?_append, Draft.slotRun?_of_elsewhere, Option.bind_some, all]
    intro call member
    rw [documentCalls_unaddressed _ call member]
    exact (Option.some_ne_none key).symm
  have runs : ∃ draft, (Draft.empty filename).Runs (documentCalls (frontMetadata document unit) ++
      writtenCallsAll (frontMetadata document unit) false (unit :: rest)) draft := by
    rw [Draft.exists_runs_iff fun call member => (callsOf_complete made call member).2]
    intro key
    exact Option.isSome_iff_exists.mpr ⟨_, slot key⟩
  obtain ⟨draft, run⟩ := runs
  have holds := run.holds (Draft.holds_empty filename) fun call member => (callsOf_complete made call member).1
  rw [List.nil_append] at holds
  refine ⟨draft, ⟨holds.sound, ?_, ?_, ?_⟩, read_eq_ok_iff.mpr ⟨_, draft, made, run, holds, rfl⟩⟩
  · have nothing : (writtenCallsAll (frontMetadata document unit) false (unit :: rest)).flatMap Call.required = [] := by
      rw [List.flatMap_eq_nil_iff]
      intro call member
      obtain ⟨key, address⟩ := unit?_of_mem_writtenCallsAll member
      exact Call.required_of_unit address
    have filled : document.requires.filter (· != "") = document.requires := by
      rw [List.filter_eq_self]
      intro name member
      simpa using fair.requires name member
    rw [holds.requires, List.flatMap_append, nothing, List.append_nil, flatMap_required_documentCalls,
      namesIn_require, filled]
    exact Text.distinct_of_nodup fair.nodup_names.2
  · have nothing : (documentCalls (frontMetadata document unit)).filterMap Call.opened? = [] := by
      rw [List.filterMap_eq_nil_iff]
      exact fun call member => Call.opened?_of_document (documentCalls_unaddressed _ call member)
    rw [holds.opened, List.filterMap_append, nothing, List.nil_append, opened?_writtenCallsAll, units]
  · intro key
    have after := run.get? key
    have before : (Draft.empty filename).units.get? key = none := rfl
    rw [before, slot key] at after
    rw [units]
    exact (Option.some.inj after).symm

private theorem slotAfter_cases {units : List RubyUnit} (fair : ∀ unit ∈ units, FairUnit unit) {key : String}
    {held : UnitDraft} (found : slotAfter units key = some held) :
    (∃ unit ∈ units, held = finalDraft unit) ∨
      ∃ path, path ≠ [] ∧ (∀ segment ∈ path, BareName segment) ∧ held = holderDraft path := by
  unfold slotAfter at found
  rcases Option.or_eq_some_iff.mp found with written | ⟨_, holder⟩
  · obtain ⟨unit, listed, rfl⟩ := Option.map_eq_some_iff.mp written
    exact .inl ⟨unit, List.mem_of_find?_eq_some listed, rfl⟩
  · obtain ⟨path, listed, rfl⟩ := Option.map_eq_some_iff.mp holder
    obtain ⟨unit, inside, member⟩ := List.mem_flatMap.mp (List.mem_of_find?_eq_some listed)
    exact .inr ⟨path, ne_nil_of_mem_pathsTo member, segments_of_mem_pathsTo (fair unit inside) member, rfl⟩

/-- A reread unit was written, or holds one that was. -/
theorem Reread.cases {document : Document} (fair : FairDocument document) {draft : Draft}
    (reread : Reread document draft) {unit : RubyUnit} (member : unit ∈ draft.document.units) :
    (∃ written ∈ writtenUnits document, unit = (finalDraft written).frozen) ∨
      ∃ path, path ≠ [] ∧ (∀ segment ∈ path, BareName segment) ∧ unit = (holderDraft path).frozen := by
  obtain ⟨⟨key, held⟩, listed, rfl⟩ := List.mem_map.mp member
  have found := Entries.get?_of_mem reread.sound.distinct listed
  rw [reread.found] at found
  rcases slotAfter_cases fair.units found with ⟨written, inside, rfl⟩ | ⟨path, given, named, rfl⟩
  · exact .inl ⟨written, inside, rfl⟩
  · exact .inr ⟨path, given, named, rfl⟩

private theorem Reread.path_named {document : Document} (fair : FairDocument document) {draft : Draft}
    (reread : Reread document draft) {unit : RubyUnit} (member : unit ∈ draft.document.units) :
    ∀ segment ∈ unit.path, BareName segment := by
  rcases reread.cases fair member with ⟨written, inside, rfl⟩ | ⟨path, given, named, rfl⟩
  · rw [path_finalDraft]
    exact (fair.units written inside).path
  · rwa [path_holderDraft given]

/-- The reread units stand at the paths that lead to the written ones, in the order in which they are first
needed. -/
theorem Reread.paths {document : Document} (fair : FairDocument document) {draft : Draft}
    (reread : Reread document draft) :
    draft.document.units.map (·.path) =
      Text.distinct ((writtenUnits document).flatMap fun unit => pathsTo [] unit.path) := by
  have named : ∀ path ∈ (writtenUnits document).flatMap fun unit => pathsTo [] unit.path,
      path ≠ [] ∧ ∀ segment ∈ path, BareName segment := by
    intro path member
    obtain ⟨unit, inside, member⟩ := List.mem_flatMap.mp member
    obtain ⟨inner, given, starts, rfl⟩ := mem_pathsTo member
    exact ⟨by simpa using given, fun segment within => (fair.units unit inside).path segment (starts.subset within)⟩
  have apart : ∀ first ∈ (writtenUnits document).flatMap fun unit => pathsTo [] unit.path,
      ∀ second ∈ (writtenUnits document).flatMap fun unit => pathsTo [] unit.path,
        Text.joinScope first = Text.joinScope second → first = second := fun first member second other same =>
    joinScope_injective (named first member).1 (named second other).1 (named first member).2
      (named second other).2 same
  -- a path is found again in its name
  have back {path : List String} (given : path ≠ []) (each : ∀ segment ∈ path, BareName segment) :
      (Text.splitScope (Text.joinScope path).toList).map trimmedText = path := splitScope_joinScope each given
  have keys := reread.sound.names_eq.trans (reread.keys.trans (Text.distinct_map apart))
  have names := congrArg (List.map fun key : String => (Text.splitScope key.toList).map trimmedText) keys
  rw [List.map_map, List.map_map] at names
  have left : draft.document.units.map
      ((fun key : String => (Text.splitScope key.toList).map trimmedText) ∘ RubyUnit.qualifiedName) =
      draft.document.units.map (·.path) :=
    List.map_congr_left fun unit member => back (Branch.path_ne_nil unit) (reread.path_named fair member)
  have right : (Text.distinct ((writtenUnits document).flatMap fun unit => pathsTo [] unit.path)).map
      ((fun key : String => (Text.splitScope key.toList).map trimmedText) ∘ Text.joinScope) =
      Text.distinct ((writtenUnits document).flatMap fun unit => pathsTo [] unit.path) := by
    have same := List.map_congr_left fun path member =>
      back (named path (Text.mem_distinct.mp member)).1 (named path (Text.mem_distinct.mp member)).2
    rw [List.map_id'] at same
    exact same
  rw [← left, ← right]
  exact names

/-- The reread units make the same forest as the written ones. -/
theorem Reread.shape_eq {document : Document} (fair : FairDocument document) {draft : Draft}
    (reread : Reread document draft) :
    Branch.shape (Branch.forest draft.document.units) = Branch.shape (Branch.forest (writtenUnits document)) := by
  have flat : ((writtenUnits document).flatMap fun unit => pathsTo [] unit.path) =
      ((writtenUnits document).map (·.path)).flatMap (pathsTo []) := (List.flatMap_map _ _ _).symm
  rw [Branch.shape_forest, Branch.shape_forest, reread.paths fair, Branch.addPaths_distinct, flat,
    Branch.addPaths_flatMap_pathsTo]

/-- At each path the reread document shows what the document shows. -/
theorem Reread.shownUnit?_eq {settings : RenderSettings} {document : Document} (fair : FairDocument document)
    {draft : Draft} (reread : Reread document draft)
    (silent : ∀ unit ∈ document.units, ∀ method ∈ unit.methods, Render.proseLines settings method = [])
    (path : List String) :
    Render.shownUnit? settings (Branch.unitAt path (Branch.forest draft.document.units)) =
      Render.shownUnit? settings (Branch.unitAt path (Branch.forest document.units)) := by
  have once := Branch.nodup_path_of_names fair.nodup_names.1
  have rereadOnce : (draft.document.units.map (·.path)).Nodup := by
    rw [reread.paths fair]
    exact Text.nodup_distinct _
  by_cases written : ∃ unit ∈ writtenUnits document, unit.path = path
  · obtain ⟨unit, inside, rfl⟩ := written
    obtain ⟨listed, real⟩ := List.mem_filter.mp inside
    have real' : unit.isNamespaceOnly = false := by simpa using real
    have found : (finalDraft unit).frozen ∈ draft.document.units := by
      have slot : slotAfter (writtenUnits document) unit.qualifiedName = some (finalDraft unit) :=
        slotAfter_of_mem fair.nodup_written inside
      rw [← reread.found] at slot
      exact List.mem_map.mpr ⟨_, Entries.mem_of_get? slot, rfl⟩
    have first := Branch.unitAt_forest_of_mem rereadOnce found
    rw [path_finalDraft] at first
    rw [first, Branch.unitAt_forest_of_mem once listed,
      shownUnit?_finalDraft (fair.units unit inside) real' (silent unit listed)]
  · have left : Render.shownUnit? settings (Branch.unitAt path (Branch.forest draft.document.units)) = none := by
      by_cases present : ∃ unit ∈ draft.document.units, unit.path = path
      · obtain ⟨unit, member, rfl⟩ := present
        rw [Branch.unitAt_forest_of_mem rereadOnce member]
        rcases reread.cases fair member with ⟨other, inside, rfl⟩ | ⟨holder, _, _, rfl⟩
        · exact absurd ⟨other, inside, (path_finalDraft other).symm⟩ written
        · exact shownUnit?_holderDraft settings holder
      · rw [Branch.unitAt_forest_of_absent fun unit member same => present ⟨unit, member, same⟩]
        rfl
    have right : Render.shownUnit? settings (Branch.unitAt path (Branch.forest document.units)) = none := by
      by_cases present : ∃ unit ∈ document.units, unit.path = path
      · obtain ⟨unit, member, rfl⟩ := present
        have mere : unit.isNamespaceOnly = true := by
          by_contra real
          exact written ⟨unit, List.mem_filter.mpr ⟨member, by simpa using real⟩, rfl⟩
        rw [Branch.unitAt_forest_of_mem once member]
        exact Render.shownUnit?_of_mere mere
      · rw [Branch.unitAt_forest_of_absent fun unit member same => present ⟨unit, member, same⟩]
        rfl
    rw [left, right]

/-! ## The round trip -/

private theorem proseLines_of_silent {settings : RenderSettings} {method : Method}
    (silent : settings.proseAsComments = true → method.prose = none) : Render.proseLines settings method = [] := by
  unfold Render.proseLines
  cases prose : method.prose with
  | none => rfl
  | some prose =>
    have quiet : settings.proseAsComments = false := by
      by_contra shown
      rw [silent (by simpa using shown)] at prose
      cases prose
    simp [quiet]

/-- A fair document is written, its text is read, and what is read makes the forest of the written units. It
renders the same Ruby code if mere namespaces can be left out. -/
theorem FairDocument.exists_reread [DataFormat]
    {settings shown : RenderSettings} (checked : settings.checked = .ok settings) {document : Document}
    (fair : FairDocument document)
    (loads : frontMatter document (writtenUnits document).head? ≠ [] →
      DataFormat.Loads (frontMatter document (writtenUnits document).head?))
    (quiet : ∀ unit ∈ document.units, ∀ method ∈ unit.methods, Render.proseLines shown method = [])
    (filename : Option String) :
    ∃ text reread, (write settings document).result = .ok text ∧ (read filename text).result = .ok reread ∧
      Branch.shape (Branch.forest reread.units) = Branch.shape (Branch.forest (writtenUnits document)) ∧
      (Dispensable document → Render.ruby shown reread = Render.ruby shown document) := by
  obtain ⟨unit, rest, units⟩ := List.exists_cons_of_ne_nil fair.given
  rw [units, List.head?_cons] at loads
  obtain ⟨draft, reread, success⟩ := fair.read_eq (fenceLanguage_of_checked checked) units loads filename
  have shape := reread.shape_eq fair
  refine ⟨_, draft.document, write_result fair.given fair.units, ?_, shape, fun dispensable => ?_⟩
  · rw [units]
    exact success
  · exact Render.ruby_eq_of_alike reread.requires (shape.trans dispensable) (reread.shownUnit?_eq fair quiet)

/-- A plain document is written, its text is read, and what is read renders the same Ruby code. The data
language is taken to load what it wrote. -/
theorem ruby_of_reread [DataFormat] {settings shown : RenderSettings}
    (checked : settings.checked = .ok settings) {document : Document} (plain : PlainDocument document)
    (loads : frontMatter document (writtenUnits document).head? ≠ [] →
      DataFormat.Loads (frontMatter document (writtenUnits document).head?))
    (silent : shown.proseAsComments = true → ∀ unit ∈ document.units, ∀ method ∈ unit.methods, method.prose = none)
    (filename : Option String) :
    ∃ text reread, (write settings document).result = .ok text ∧ (read filename text).result = .ok reread ∧
      Render.ruby shown reread = Render.ruby shown document := by
  have quiet : ∀ unit ∈ document.units, ∀ method ∈ unit.methods, Render.proseLines shown method = [] :=
    fun unit listed method member => proseLines_of_silent fun shows => silent shows unit listed method member
  obtain ⟨text, reread, writes, reads, _, same⟩ := plain.fair.exists_reread checked loads quiet filename
  exact ⟨text, reread, writes, reads, same (dispensable_of_led plain.led)⟩

/-! ## A document with a namespace and a fence -/

/-- A class in a namespace, with a mixin, a constant, an attribute and a method in each section; the body of
the first method needs a fence. -/
def cart : RubyUnit where
  nature := .cls none
  name := "Cart"
  scope := ["Shop"]
  methods := [
    ⟨"add", [.required "item", .optional "count" "1"], "# adds\n@items << item", .pub, .onInstance, none⟩,
    ⟨"total", [], "@items.sum", .priv, .onInstance, none⟩,
    ⟨"build", [], "", .pub, .inSingleton, none⟩]
  constants := [("LIMIT", .int 10)]
  classVariables := []
  readerNames := []
  writerNames := []
  accessorNames := []
  attributes := [⟨.reader, ["items"]⟩]
  included := ["Enumerable"]
  extended := []
  aliases := []
  aliasMethods := []

/-- The class and its namespace. -/
def shop : Document where
  units := [⟨.mod true, "Shop", [], [], [], [], [], [], [], [], [], [], [], []⟩, cart]
  requires := []
  metadata := []
  filename := none

private theorem plainMethod_of_cart : ∀ method ∈ cart.methods, PlainMethod method := by
  have titles : ∀ method ∈ cart.methods, method.flaw? = none ∧
      (method.name.toList.all fun c => !Text.isBlank c && c != '(') = true ∧
      Text.after? "self.".toList method.name.toList = none ∧ Visibility.ofText? method.name = none ∧
      (method.binding = .inSingleton → method.visibility = .pub) := by decide +kernel
  have words : ∀ name ∈ ["item", "count"], name ≠ "" ∧ WordText name := by decide +kernel
  have bodies : ∀ method ∈ cart.methods, (method.body.toList.head?.all fun c => !Text.isBlank c) = true ∧
      (method.body.toList.getLast?.all fun c => !Text.isBlank c) = true ∧ '\r' ∉ method.body.toList ∧
      ∀ line ∈ Text.lines method.body.toList, isFence line = false := by decide +kernel
  have fenced : ∃ line ∈ Text.lines "# adds\n@items << item".toList, looksLikeHeading line = true := by
    decide +kernel
  have open' : ∀ method ∈ cart.methods.tail, ∀ line ∈ Text.lines method.body.toList,
      looksLikeHeading line = false := by decide +kernel
  have default : PlainDefault "1" :=
    ⟨by decide, Text.trimmed_of_shown (Text.shown_of_all (by decide)), ⟨by decide, rfl⟩, by simp⟩
  have parameters : ∀ method ∈ cart.methods, ∀ parameter ∈ method.parameters, PlainParameter parameter := by
    intro method member parameter listed
    simp only [cart, List.mem_cons, List.not_mem_nil, or_false] at member
    rcases member with rfl | rfl | rfl
    · simp only [List.mem_cons, List.not_mem_nil, or_false] at listed
      rcases listed with rfl | rfl
      · exact words "item" (by simp)
      · exact ⟨words "count" (by simp), default⟩
    · cases listed
    · cases listed
  intro method member
  obtain ⟨sound, bare, direct, unreserved, block⟩ := titles method member
  obtain ⟨first, last, unix, plain⟩ := bodies method member
  have shown : ∀ c ∈ method.name.toList, Text.isBlank c = false ∧ c ≠ '(' := by simpa using bare
  have edges : Text.Trimmed method.body.toList := by
    simp only [Option.all_eq_true, Bool.not_eq_true'] at first last
    exact ⟨first, last⟩
  refine ⟨⟨sound, shown, direct, parameters method member⟩, ⟨edges, unix, ?_⟩, unreserved, block⟩
  rcases List.mem_cons.mp member with rfl | later
  · exact .inr ⟨fenced, plain⟩
  · refine .inl ⟨open' method later, ?_, ?_⟩
    · rw [List.countP_eq_zero.mpr fun line inside => by simp [plain line inside]]
    · rintro ⟨opening, inner, closing, same, opens, _⟩
      rw [plain opening (by simp [same])] at opens
      cases opens

private theorem plainUnit_cart : PlainUnit cart where
  path := by decide +kernel
  declarations := {
    constantsOnce := by decide
    classVariablesOnce := by decide
    constants := by
      intro entry member
      rw [List.mem_singleton.mp member]
      have letters : ∀ c ∈ "LIMIT".toList, isConstantChar c = true :=
        List.all_eq_true.mp (by decide +kernel)
      refine ⟨⟨⟨'L', _, rfl, by decide⟩, letters⟩, "10", .int 10, rfl, ?_, by simp, rfl, rfl⟩
      exact Text.trimmed_of_shown (Text.shown_of_all (by decide))
    classVariables := by
      intro entry member
      cases member
    declared := by
      rintro (_ | _ | _) name member <;> cases member
    attributes := by
      intro declaration member
      rw [List.mem_singleton.mp member]
      refine ⟨by decide, ?_⟩
      intro name listed
      rw [List.mem_singleton.mp listed]
      exact ⟨by decide, by decide +kernel⟩ }
  methods := plainMethod_of_cart

private theorem plain_shop : PlainDocument shop where
  flawless := by decide +kernel
  given := by decide +kernel
  led := ⟨fun _ => ⟨[], rfl⟩, rfl⟩
  units := by
    intro unit member
    rw [List.mem_singleton.mp (member : unit ∈ [cart])]
    exact plainUnit_cart
  mixins := by
    intro unit member
    rw [List.mem_singleton.mp (member : unit ∈ [cart])]
    exact ⟨by decide, by decide, by decide, by decide, by decide⟩
  undescribed := by
    intro unit member
    cases member
  requires := by
    intro name member
    cases member

private theorem loads_shop : DataFormat.Loads (frontMatter shop (writtenUnits shop).head?) := by
  have front : frontMatter shop (writtenUnits shop).head? = [("include", .texts ["Enumerable"])] := by
    decide +kernel
  exact Yaml.loads_of_single front (by decide +kernel)

/-- The class and its namespace come back from their text. -/
theorem ruby_of_reread_shop :
    ∃ text reread, (write .default shop).result = .ok text ∧ (read none text).result = .ok reread ∧
      Render.ruby .default reread = Render.ruby .default shop :=
  ruby_of_reread (by decide +kernel) plain_shop (fun _ => loads_shop) (fun shows => by cases shows) none

end LiterateRuby.Literate
