import LiterateRuby.Proofs.Forest.Blocks
import LiterateRuby.Proofs.Inhabited
import LiterateRuby.Proofs.Literate.Fenceless
import LiterateRuby.Render.Markdown

/-! # Code in one fenced block

Code is put between two fences whatever it holds. Keywords, indentation and comments never make a line a fence, so
the code is one block as long as no part of the document starts a line with one (`markdown_oneBlock_iff`). A part
that stands behind something else in its line needs a line feed for that, the name of a value and a line of a body
do not.
-/

namespace LiterateRuby

namespace Literate

open Text (allBlank lines unlines Flat)
open Branch (Block NodesOf shownAt? shownAt?_eq_some codeView)
open Render (definitionLines methodLines stepLines statementLines stepsOf steps closeBlock statementsFrom header
  unitSections)

/-! ## Definitions -/

/-- No part of a method starts a line of its definition with a fence. -/
structure FencelessMethod (method : Method) : Prop where
  name : Continues method.name.toList
  parameters : ∀ parameter ∈ method.parameters, Continues parameter.name.toList ∧
    ∀ default, parameter.default? = some default → Continues default.toList
  body : Fenceless method.body.toList

private theorem continues_text (parameter : Parameter) :
    Continues parameter.text.toList ↔ Continues parameter.name.toList ∧
      ∀ default, parameter.default? = some default → Continues default.toList := by
  cases parameter <;>
    simp only [Parameter.text, Parameter.name, Parameter.default?, String.toList_append, List.append_assoc,
      reduceCtorEq, false_implies, implies_true, and_true, Option.some.injEq, forall_eq']
  case optional name default => exact continues_parted (by decide) _ _
  case rest name => exact continues_behind (by decide) _
  case requiredKeyword name => exact continues_before (by decide) _
  case optionalKeyword name default => exact continues_parted (by decide) _ _
  case keywordRest name => exact continues_behind (by decide) _
  case block name => exact continues_behind (by decide) _
  case forward => decide

private theorem continues_joined {parting : String} (parts : isParting parting.toList = true)
    (pieces : List String) :
    Continues (parting.intercalate pieces).toList ↔ ∀ piece ∈ pieces, Continues piece.toList := by
  rw [String.toList_intercalate, continues_intercalate parts]
  exact List.forall_mem_map

private theorem continues_listText (before : List Char) (parameters : List Parameter) :
    Continues (before ++ (Parameter.listText parameters).toList) ↔
      Continues before ∧ ∀ parameter ∈ parameters, Continues parameter.text.toList := by
  cases parameters with
  | nil => simp [Parameter.listText]
  | cons first rest =>
    have texts : Continues (", ".intercalate ((first :: rest).map Parameter.text)).toList ↔
        ∀ parameter ∈ first :: rest, Continues parameter.text.toList :=
      (continues_joined (by decide) _).trans List.forall_mem_map
    rw [Parameter.listText, String.toList_append, String.toList_append, List.append_assoc,
      continues_parted (by decide), continues_before (by decide), texts]
    simp

/-- The line that opens a definition. -/
theorem fenceless_opening (method : Method) :
    Fenceless ("def " ++ Render.definedName method ++ Parameter.listText method.parameters).toList ↔
      Continues method.name.toList ∧ ∀ parameter ∈ method.parameters, Continues parameter.text.toList := by
  have name : Continues (Render.definedName method).toList ↔ Continues method.name.toList := by
    unfold Render.definedName
    split_ifs
    · rw [String.toList_append]
      exact continues_behind (by decide) _
    · rfl
  rw [String.toList_append, String.toList_append, List.append_assoc, fenceless_behind (by decide),
    continues_listText, name]

/-- Comments are no fences. -/
theorem fencelessLines_prose (settings : RenderSettings) (method : Method) :
    FencelessLines (Render.proseLines settings method) := by
  have comment {line : List Char} (flat : Flat line) : Fenceless (Text.trimEnd ('#' :: ' ' :: line)) := by
    have sign : Text.trimEnd ('#' :: ' ' :: line) = '#' :: Text.trimEnd (' ' :: line) :=
      Text.trimEnd_cons_of_shown (by decide) _
    have kept : Flat (Text.trimEnd ('#' :: ' ' :: line)) :=
      Flat.subset (by simpa using flat) (Text.trimEnd_starts _).subset
    rw [fenceless_of_flat kept, sign]
    exact isFence_of_head (by decide) (by decide) (by decide)
  unfold Render.proseLines
  split
  · split_ifs
    · rw [fencelessLines_map, Text.linesOf, List.forall_mem_map]
      intro line member
      simpa using comment (Text.flat_of_mem_lines member)
    · simp [FencelessLines]
  · simp [FencelessLines]

section Settings

variable {settings : RenderSettings} (blank : allBlank settings.indent.toList = true)
  (flat : Flat settings.indent.toList)
include blank flat

private theorem fencelessLines_definition (method : Method) :
    FencelessLines (definitionLines settings method) ↔ FencelessMethod method := by
  have body : FencelessLines (if method.body = "" then [] else Text.linesOf method.body) ↔
      Fenceless method.body.toList := by
    split_ifs with empty
    · simp [FencelessLines, empty, fenceless_nil]
    · exact fencelessLines_linesOf method.body
  have ends : FencelessLines ["end"] := by decide
  have prose := fencelessLines_prose settings method
  have opening := fenceless_opening method
  have nothing : FencelessLines [] := by decide
  rw [definitionLines, fencelessLines_append, fencelessLines_append, fencelessLines_append, fencelessLines_cons,
    fencelessLines_indentLines blank flat, body, opening, and_iff_left ends, and_iff_right prose, and_iff_left nothing]
  constructor
  · rintro ⟨⟨name, parameters⟩, inner⟩
    exact ⟨name, fun parameter member => (continues_text parameter).mp (parameters parameter member), inner⟩
  · rintro ⟨name, parameters, inner⟩
    exact ⟨⟨name, fun parameter member => (continues_text parameter).mpr (parameters parameter member)⟩, inner⟩

/-- Keywords are no fences. -/
theorem fencelessLines_stepsOf (active : Visibility) (method : Method) :
    (∀ step ∈ stepsOf active method, FencelessLines (stepLines settings step)) ↔ FencelessMethod method := by
  have keyword : FencelessLines [method.visibility.keyword] := by cases method.visibility <;> decide
  have definition : FencelessLines (stepLines settings (.definition method)) ↔ FencelessMethod method :=
    fencelessLines_definition blank flat method
  unfold stepsOf
  split_ifs
  · rw [List.forall_mem_singleton, definition]
  · rw [List.forall_mem_cons, List.forall_mem_singleton, definition]
    exact and_iff_right keyword

private theorem fencelessLines_steps (active : Visibility) (methods : List Method) :
    (∀ step ∈ steps active methods, FencelessLines (stepLines settings step)) ↔
      ∀ method ∈ methods, FencelessMethod method := by
  induction methods generalizing active with
  | nil => simp [steps]
  | cons method rest ih =>
    rw [steps, List.forall_mem_append, fencelessLines_stepsOf blank flat, ih, List.forall_mem_cons]

private theorem fencelessLines_closeBlock (block : List Method) :
    (∀ statement ∈ closeBlock block, FencelessLines (statementLines settings statement)) ↔
      ∀ method ∈ block, FencelessMethod method := by
  have opening : Fenceless "class << self".toList := by decide
  have ends : FencelessLines ["end"] := by decide
  unfold closeBlock
  split_ifs with empty
  · simp [List.isEmpty_iff.mp empty]
  · rw [List.forall_mem_singleton, statementLines, List.cons_append, fencelessLines_cons, fencelessLines_append,
      fencelessLines_indentLines blank flat, fencelessLines_joinSections, List.forall_mem_map,
      fencelessLines_steps blank flat, and_iff_right opening, and_iff_left ends]

private theorem fencelessLines_statementsFrom (active : Visibility) (block methods : List Method) :
    (∀ statement ∈ statementsFrom active block methods, FencelessLines (statementLines settings statement)) ↔
      ∀ method ∈ block ++ methods, FencelessMethod method := by
  induction methods generalizing active block with
  | nil => rw [statementsFrom, fencelessLines_closeBlock blank flat, List.append_nil]
  | cons method rest ih =>
    have step : (∀ statement ∈ (stepsOf active method).map .step, FencelessLines (statementLines settings statement)) ↔
        FencelessMethod method := by
      rw [List.forall_mem_map]
      exact fencelessLines_stepsOf blank flat active method
    rw [statementsFrom]
    split_ifs
    · rw [ih, List.append_assoc, List.singleton_append]
    · rw [List.forall_mem_append, List.forall_mem_append, fencelessLines_closeBlock blank flat, step, ih,
        List.nil_append, List.forall_mem_append, List.forall_mem_cons, and_assoc]

private theorem fencelessLines_methods (methods : List Method) :
    FencelessLines (methodLines settings methods) ↔ ∀ method ∈ methods, FencelessMethod method := by
  rw [methodLines, fencelessLines_joinSections, List.forall_mem_map]
  exact fencelessLines_statementsFrom blank flat .pub [] methods

end Settings

/-! ## Units -/

/-- No part of a unit starts a line with a fence, its path apart. -/
structure FencelessUnit (unit : RubyUnit) : Prop where
  superclass : ∀ name, unit.superclass? = some name → Continues name.toList
  mixins : ∀ name ∈ unit.included ++ unit.extended, Continues name.toList
  values : ∀ entry ∈ unit.classVariables ++ unit.constants,
    Fenceless entry.1.toList ∧ Continues entry.2.freeText.toList
  attributes : ∀ accessor, ∀ name ∈ unit.attributeNames accessor, Continues name.toList
  methods : ∀ method ∈ unit.methods, FencelessMethod method
  /-- A blank between the names keeps nothing apart. -/
  aliases : ∀ entry ∈ unit.aliases, Continues (entry.1 ++ " " ++ entry.2).toList
  aliasMethods : ∀ entry ∈ unit.aliasMethods, Continues entry.1.toList ∧ Continues entry.2.toList

private theorem fenceless_header (unit : RubyUnit) :
    Fenceless (header unit).toList ↔
      Continues unit.name.toList ∧ ∀ name, unit.superclass? = some name → Continues name.toList := by
  have word : isParting (unit.kind.keyword ++ " ").toList = true := by cases unit.kind <;> decide
  unfold header
  cases given : unit.superclass? with
  | none =>
    dsimp only
    rw [String.toList_append, fenceless_behind word]
    simp
  | some superclass =>
    dsimp only
    rw [String.toList_append, String.toList_append, String.toList_append, List.append_assoc, List.append_assoc,
      fenceless_behind word, continues_parted (by decide)]
    simp

private theorem fencelessLines_assignments {values : Entries String Constant} {code : List String}
    (success : Render.assignments values = .ok code) :
    FencelessLines code ↔ ∀ entry ∈ values, Fenceless entry.1.toList ∧ Continues entry.2.freeText.toList := by
  unfold Render.assignments at success
  have each := Except.mapM_eq_ok_iff.mp success
  clear success
  induction each with
  | nil => simp [FencelessLines]
  | @cons entry text rest others written _ ih =>
    obtain ⟨source, literal, same⟩ := Except.bind_eq_ok_iff.mp written
    have line : text = entry.1 ++ " = " ++ source := (Except.ok.inj same).symm
    have value := continues_literal (Except.mapError_eq_ok_iff.mp literal)
    rw [fencelessLines_cons, List.forall_mem_cons, line, String.toList_append, String.toList_append,
      List.append_assoc, fenceless_parted (by decide), value]
    exact and_congr_right' ih

private theorem fenceless_attributeLine (accessor : Accessor) (names : List String) :
    Fenceless (Render.attributeLine accessor names).toList ↔ ∀ name ∈ names, Continues name.toList := by
  have word : isParting (accessor.keyword ++ " ").toList = true := by cases accessor <;> decide
  have symbol (name : String) : Continues (":" ++ name).toList ↔ Continues name.toList := by
    rw [String.toList_append, continues_behind (by decide)]
  rw [Render.attributeLine, String.toList_append, fenceless_behind word, Render.symbols, continues_joined (by decide),
    List.forall_mem_map]
  exact forall₂_congr fun name _ => symbol name

private theorem fencelessLines_attributes (unit : RubyUnit) :
    FencelessLines (Render.attributeLines unit) ↔
      ∀ accessor, ∀ name ∈ unit.attributeNames accessor, Continues name.toList := by
  have all (accessor : Accessor) : accessor ∈ Accessor.all := by cases accessor <;> decide
  have named {accessor : Accessor} {name : String} : name ∈ unit.attributeNames accessor ↔
      name ∈ unit.declared accessor ∨
        ∃ declaration ∈ unit.attributes, declaration.accessor = accessor ∧ name ∈ declaration.names := by
    simp [RubyUnit.attributeNames, Text.mem_distinct, and_assoc]
  rw [Render.attributeLines, fencelessLines_append, fencelessLines_map, fencelessLines_map]
  simp only [fenceless_attributeLine, named]
  constructor
  · rintro ⟨front, inline⟩ accessor name (declared | ⟨declaration, member, -, listed⟩)
    · have given : (unit.declared accessor).isEmpty = false := by
        simpa using List.ne_nil_of_mem declared
      exact front accessor (List.mem_filter.mpr ⟨all accessor, by simp [given]⟩) name declared
    · exact inline declaration member name listed
  · intro each
    exact ⟨fun accessor _ name declared => each accessor name (.inl declared), fun declaration member name listed =>
      each declaration.accessor name (.inr ⟨declaration, member, rfl, listed⟩)⟩

private theorem fencelessLines_aliases (unit : RubyUnit) :
    FencelessLines (Render.aliasLines unit) ↔
      (∀ entry ∈ unit.aliases, Continues (entry.1 ++ " " ++ entry.2).toList) ∧
        ∀ entry ∈ unit.aliasMethods, Continues entry.1.toList ∧ Continues entry.2.toList := by
  rw [Render.aliasLines, fencelessLines_append, fencelessLines_map, fencelessLines_map]
  refine and_congr (forall₂_congr fun entry _ => ?_) (forall₂_congr fun entry _ => ?_)
  · change Fenceless ("alias " ++ entry.1 ++ " " ++ entry.2).toList ↔ _
    rw [String.append_assoc, String.append_assoc, String.toList_append, fenceless_behind (by decide),
      ← String.append_assoc]
  · change Fenceless ("alias_method :" ++ entry.1 ++ ", :" ++ entry.2).toList ↔ _
    rw [String.toList_append, String.toList_append, String.toList_append, List.append_assoc, List.append_assoc,
      fenceless_behind (by decide), continues_parted (by decide)]

private theorem fencelessLines_prefixed {word : String} (parts : isParting word.toList = true)
    (names : List String) :
    FencelessLines (names.map (word ++ ·)) ↔ ∀ name ∈ names, Continues name.toList := by
  rw [fencelessLines_map]
  refine forall₂_congr fun name _ => ?_
  rw [String.toList_append, fenceless_behind parts]

private theorem unitSections_eq_ok_iff {settings : RenderSettings} {unit : RubyUnit}
    {sections : List (List String)} :
    unitSections settings unit = .ok sections ↔ ∃ shared constants,
      Render.assignments unit.classVariables = .ok shared ∧ Render.assignments unit.constants = .ok constants ∧
        sections = [unit.included.map ("include " ++ ·) ++ unit.extended.map ("extend " ++ ·), shared ++ constants,
          Render.attributeLines unit, methodLines settings unit.methods, Render.aliasLines unit] := by
  simp only [unitSections, Except.bind_eq_ok_iff, pure, Except.pure, Except.ok.injEq]
  grind

private theorem fencelessUnit_iff {settings : RenderSettings} (blank : allBlank settings.indent.toList = true)
    (flat : Flat settings.indent.toList) {unit : RubyUnit} {sections : List (List String)}
    (success : unitSections settings unit = .ok sections) :
    FencelessUnit unit ↔ (∀ name, unit.superclass? = some name → Continues name.toList) ∧
      ∀ code ∈ sections, FencelessLines code := by
  obtain ⟨shared, constants, first, second, rfl⟩ := unitSections_eq_ok_iff.mp success
  simp only [List.forall_mem_cons, fencelessLines_append,
    fencelessLines_prefixed (show isParting "include ".toList = true by decide),
    fencelessLines_prefixed (show isParting "extend ".toList = true by decide), fencelessLines_assignments first,
    fencelessLines_assignments second, fencelessLines_attributes, fencelessLines_methods blank flat,
    fencelessLines_aliases, ← List.forall_mem_append]
  constructor
  · rintro ⟨superclass, mixins, values, attributes, methods, aliases, aliasMethods⟩
    exact ⟨superclass, mixins, values, attributes, methods, ⟨aliases, aliasMethods⟩, List.forall_mem_nil _⟩
  · rintro ⟨superclass, mixins, values, attributes, methods, ⟨aliases, aliasMethods⟩, -⟩
    exact ⟨superclass, mixins, values, attributes, methods, aliases, aliasMethods⟩

/-! ## Documents -/

/-- No part of a document starts a line of its code with a fence. -/
structure FencelessDocument (document : Document) : Prop where
  requires : ∀ name ∈ document.requires, Continues name.toList
  paths : ∀ unit ∈ document.units, ∀ segment ∈ unit.path, Continues segment.toList
  units : ∀ unit ∈ document.units, unit.isNamespaceOnly = false → FencelessUnit unit

private theorem fenceless_requireLine (name : String) :
    Fenceless (Render.requireLine name).toList ↔ Continues name.toList := by
  unfold Render.requireLine
  split_ifs
  · rw [String.toList_append, String.toList_append, List.append_assoc, fenceless_behind (by decide),
      continues_before (by decide)]
  · rw [String.toList_append, String.toList_append, List.append_assoc, fenceless_behind (by decide),
      continues_before (by decide)]

mutual

theorem fencelessLines_block {indent : String} (blank : allBlank indent.toList = true)
    (flat : Flat indent.toList) (around : List String) :
    ∀ block : Block (List (List String)), FencelessLines (block.lines indent) ↔
      ∀ entry ∈ block.entries around, Fenceless (entry.1.getLastD "").toList ∧
        ∀ code ∈ entry.2, FencelessLines code
  | .node opening own inner => by
    have ends : FencelessLines ["end"] := by decide
    have below := fencelessLines_blocks blank flat (around ++ [opening]) inner
    rw [Block.lines, Block.entries, List.cons_append, fencelessLines_cons, fencelessLines_append,
      fencelessLines_indentLines blank flat, fencelessLines_joinSections, List.forall_mem_append,
      List.forall_mem_singleton, fencelessLines_joinSections, below, and_iff_left ends, List.forall_mem_cons,
      List.getLastD_concat, and_assoc]

/-- No block has a fence exactly if no opening has one and none of their own sections. -/
theorem fencelessLines_blocks {indent : String} (blank : allBlank indent.toList = true)
    (flat : Flat indent.toList) (around : List String) :
    ∀ blocks : List (Block (List (List String))), (∀ code ∈ Block.linesAll indent blocks, FencelessLines code) ↔
      ∀ entry ∈ Block.entriesAll around blocks, Fenceless (entry.1.getLastD "").toList ∧
        ∀ code ∈ entry.2, FencelessLines code
  | [] => by simp [Block.linesAll, Block.entriesAll]
  | block :: rest => by
    rw [Block.linesAll, Block.entriesAll, List.forall_mem_cons, List.forall_mem_append,
      fencelessLines_block blank flat around block, fencelessLines_blocks blank flat around rest]

end

section Settings

variable {settings : RenderSettings} (blank : allBlank settings.indent.toList = true)
  (flat : Flat settings.indent.toList)
include blank flat

/-- A block has no fence of its own. -/
theorem fenceless_own {name : String} {held : Option RubyUnit} (named : ∀ unit, held = some unit → unit.name = name)
    (succeeds : ∃ own, (codeView settings).own held = .ok own) :
    (∃ own, (codeView settings).own held = .ok own ∧ Fenceless ((codeView settings).opening name held).toList ∧
        ∀ code ∈ own, FencelessLines code) ↔
      Continues name.toList ∧ ∀ unit, held = some unit → FencelessUnit unit := by
  cases held with
  | none =>
    have opening : Fenceless ("module " ++ name).toList ↔ Continues name.toList := by
      rw [String.toList_append]
      exact fenceless_behind (by decide) _
    simpa [codeView] using opening
  | some unit =>
    obtain ⟨own, success⟩ := succeeds
    obtain rfl := named unit rfl
    have opening := fenceless_header unit
    have parts := fencelessUnit_iff blank flat success
    have only : ∀ other, (codeView settings).own (some unit) = .ok other ↔ other = own := by
      simp [success, eq_comm]
    simp only [only, exists_eq_left, Option.some.injEq, forall_eq', parts]
    rw [← and_assoc, ← opening]
    rfl

/-- The code of a forest has no fence exactly if none comes with a segment of a path or with a unit that shows. -/
theorem fencelessLines_forest {units : List RubyUnit} (nodes : NodesOf units (Branch.forest units))
    {branches : List (List String)}
    (drawn : Render.branchLinesAll settings (Branch.forest units) = .ok branches) :
    (∀ code ∈ branches, FencelessLines code) ↔
      ∀ path ∈ (Branch.entriesAll [] (Branch.forest units)).map (·.1),
        Continues (path.getLastD "").toList ∧ ∀ unit, shownAt? units path = some unit → FencelessUnit unit := by
  have shown := Branch.shownAs_code nodes settings
  obtain ⟨made, rfl, stand⟩ := shown.blocks branches drawn
  have given : ∀ path ∈ (Branch.entriesAll [] (Branch.forest units)).map (·.1), path ≠ [] :=
    fun path listed => ((nodes.paths path).mp listed).1
  have named (path : List String) (unit : RubyUnit) (here : shownAt? units path = some unit) :
      unit.name = path.getLastD "" := by
    rw [← (shownAt?_eq_some here).2.1, RubyUnit.path, List.getLastD_concat]
  have written (path : List String) : ∃ own, (codeView settings).own (shownAt? units path) = .ok own := by
    cases here : shownAt? units path with
    | none => exact ⟨[], rfl⟩
    | some unit =>
      obtain ⟨member, -, real⟩ := shownAt?_eq_some here
      exact shown.succeeds.mp ⟨_, drawn⟩ unit member real
  rw [fencelessLines_blocks blank flat [], stand.forall_iff given fun opening own =>
    Fenceless opening.toList ∧ ∀ code ∈ own, FencelessLines code]
  exact forall₂_congr fun path _ => fenceless_own blank flat (named path) (written path)

/-- Each segment of a path ends a path in the forest, and each unit that is more than a namespace shows there. -/
theorem fencelessLines_ruby {document : Document} (sound : document.flaw? = none) {code : List String}
    (success : Render.rubyLines settings document = .ok code) :
    FencelessLines code ↔ FencelessDocument document := by
  have nodes := Branch.nodesOf_forest (Branch.nodup_path_of_names (Document.flaw?_eq_none_iff.mp sound).1)
  obtain ⟨branches, drawn, same⟩ := Except.bind_eq_ok_iff.mp success
  rw [← Except.ok.inj same, fencelessLines_joinSections, List.forall_mem_cons, fencelessLines_map,
    fencelessLines_forest blank flat nodes drawn]
  simp only [fenceless_requireLine]
  constructor
  · rintro ⟨requires, paths⟩
    refine ⟨requires, fun unit member segment within => ?_, fun unit member real => ?_⟩
    · obtain ⟨before, after, split⟩ := List.append_of_mem within
      have listed := (nodes.paths (before ++ [segment])).mpr
        ⟨by simp, unit, member, after, by rw [split]; simp⟩
      have last := (paths _ listed).1
      rwa [List.getLastD_concat] at last
    · have listed := nodes.mem_listed member
      have here := (nodes.shownAt?_eq listed).trans (Branch.shown_of_real real)
      exact (paths _ (List.mem_map_of_mem listed)).2 unit here
  · rintro ⟨requires, segments, units⟩
    refine ⟨requires, fun path listed => ⟨?_, fun unit here => ?_⟩⟩
    · obtain ⟨given, unit, member, starts⟩ := (nodes.paths path).mp listed
      rw [List.getLastD_eq_getLast?, List.getLast?_eq_some_getLast given]
      exact segments unit member _ (starts.subset (List.getLast_mem given))
    · obtain ⟨member, -, real⟩ := shownAt?_eq_some here
      exact units unit member real

end Settings

/-- Each value of a unit that shows has a literal. -/
def Writable (document : Document) : Prop :=
  ∀ unit ∈ document.units, unit.isNamespaceOnly = false →
    ∀ entry ∈ unit.classVariables ++ unit.constants, ∃ source, entry.2.literal = .ok source

private theorem exists_assignments_iff {values : Entries String Constant} :
    (∃ code, Render.assignments values = .ok code) ↔ ∀ entry ∈ values, ∃ source, entry.2.literal = .ok source := by
  unfold Render.assignments
  constructor
  · rintro ⟨code, success⟩ entry member
    obtain ⟨line, written⟩ := Except.exists_of_mapM success member
    obtain ⟨source, literal, -⟩ := Except.bind_eq_ok_iff.mp written
    exact ⟨source, Except.mapError_eq_ok_iff.mp literal⟩
  · intro each
    refine Except.exists_mapM fun entry member => ?_
    obtain ⟨source, literal⟩ := each entry member
    exact ⟨_, Except.bind_eq_ok_iff.mpr ⟨source, Except.mapError_eq_ok_iff.mpr literal, rfl⟩⟩

private theorem exists_unitSections_iff {settings : RenderSettings} {unit : RubyUnit} :
    (∃ sections, unitSections settings unit = .ok sections) ↔
      ∀ entry ∈ unit.classVariables ++ unit.constants, ∃ source, entry.2.literal = .ok source := by
  rw [List.forall_mem_append, ← exists_assignments_iff, ← exists_assignments_iff]
  simp only [unitSections_eq_ok_iff]
  constructor
  · rintro ⟨_, shared, constants, first, second, -⟩
    exact ⟨⟨shared, first⟩, constants, second⟩
  · rintro ⟨⟨shared, first⟩, constants, second⟩
    exact ⟨_, shared, constants, first, second, rfl⟩

/-- Nothing stands against a document as Markdown but a value without a literal. -/
theorem exists_markdown_iff {settings : RenderSettings} {document : Document} (sound : document.flaw? = none) :
    (∃ text, Render.markdown settings document = .ok text) ↔ Writable document := by
  have nodes := Branch.nodesOf_forest (Branch.nodup_path_of_names (Document.flaw?_eq_none_iff.mp sound).1)
  have sections (unit : RubyUnit) :
      (∃ own, (codeView settings).own (some unit) = .ok own) ↔
        ∀ entry ∈ unit.classVariables ++ unit.constants, ∃ source, entry.2.literal = .ok source :=
    exists_unitSections_iff
  have drawn := (Branch.shownAs_code nodes settings).succeeds
  simp only [sections] at drawn
  have code : (∃ code, Render.ruby settings document = .ok code) ↔
      ∃ branches, Render.branchLinesAll settings (Branch.forest document.units) = .ok branches := by
    unfold Render.ruby Render.rubyLines
    cases Render.branchLinesAll settings (Branch.forest document.units) with
    | error fault => exact iff_of_false (fun ⟨_, success⟩ => nomatch success) (fun ⟨_, success⟩ => nomatch success)
    | ok branches => exact iff_of_true ⟨_, rfl⟩ ⟨branches, rfl⟩
  rw [Writable, ← drawn, ← code, Render.markdown]
  cases Render.ruby settings document with
  | error fault => exact iff_of_false (fun ⟨_, success⟩ => nomatch success) (fun ⟨_, success⟩ => nomatch success)
  | ok code =>
    refine iff_of_true ?_ ⟨code, rfl⟩
    rw [Except.ok_bind]
    split_ifs <;> exact ⟨_, rfl⟩

/-! ## One block -/

/-- The text between the first fence of a text and the next one, each line with its line feed. -/
def firstBlock (cs : List Char) : List Char :=
  unlines (((lines cs).dropWhile fun line => !isFence line).tail.takeWhile (fun line => !isFence line) ++ [[]])

private theorem firstBlock_eq_iff {settings : RenderSettings} {inner : List (List Char)}
    (flat : ∀ line ∈ inner, Flat line)
    {cs : List Char} (fenced : lines cs = fencedLines settings inner ++ [[]]) :
    firstBlock cs = unlines (inner ++ [[]]) ↔ ∀ line ∈ inner, isFence line = false := by
  have closes : (!isFence Render.fence.toList) = false := by rw [isFence_closing]; rfl
  have stops : ((lines cs).dropWhile fun line => !isFence line).tail.takeWhile (fun line => !isFence line) =
      inner.takeWhile fun line => !isFence line := by
    rw [fenced, fencedLines, List.cons_append, List.dropWhile_cons_of_neg (by simp [isFence_fence]), List.tail_cons,
      List.append_assoc, List.takeWhile_append, List.singleton_append, List.takeWhile_cons_of_neg (by simp [closes]),
      List.append_nil]
    split_ifs with all
    · exact ((List.takeWhile_prefix _).eq_of_length all).symm
    · rfl
  have start : ∀ line ∈ inner.takeWhile (fun line => !isFence line), Flat line := fun line member =>
    flat line ((List.takeWhile_prefix _).subset member)
  rw [firstBlock, stops]
  constructor
  · intro same
    have lines := congrArg Text.lines same
    rw [Text.lines_unlines_concat_nil start, Text.lines_unlines_concat_nil flat] at lines
    simpa using List.takeWhile_eq_self_iff.mp (List.append_cancel_right lines)
  · intro plain
    rw [List.takeWhile_eq_self_iff.mpr (by simpa using plain)]

/-- What is rendered as Markdown is code between two fences. -/
theorem exists_lines_markdown {settings : RenderSettings} {document : Document} {text : String}
    (language : ∀ c ∈ settings.fenceLanguage.toList, Text.isBlank c = false) (content : document.hasContent = true)
    (success : Render.markdown settings document = .ok text) :
    ∃ rows inner, Render.rubyLines settings document = .ok rows ∧
      (FencelessLines rows ↔ ∀ line ∈ inner, isFence line = false) ∧
      lines (Render.textOf rows).toList = inner ++ [[]] ∧ lines text.toList = fencedLines settings inner ++ [[]] := by
  obtain ⟨code, rendered, made⟩ := Except.bind_eq_ok_iff.mp success
  obtain ⟨rows, written, rfl⟩ := Render.ruby_eq_ok_iff.mp rendered
  have filled : Render.textOf rows ≠ "" := by
    intro empty
    rw [empty, Render.ruby_eq_empty_iff, content] at rendered
    cases rendered
  have given : rows ≠ [] := fun empty => filled (Render.textOf_eq_empty_iff.mpr empty)
  -- the text of the rows is that of their lines
  let inner := (rows.map String.toList).flatMap lines
  have texts : lines (unlines (rows.map String.toList)) = inner :=
    Text.lines_unlines_flatMap (by simpa using given)
  have more : inner ≠ [] := texts ▸ Text.lines_ne_nil _
  have flat : ∀ line ∈ inner, Flat line := fun line member => Text.flat_of_mem_lines (texts ▸ member)
  have code : (Render.textOf rows).toList = unlines inner ++ ['\n'] := by
    rw [Render.textOf, if_neg (by simpa using given), String.toList_append, Text.toList_intercalate_lines,
      ← texts, Text.unlines_lines]
    rfl
  refine ⟨rows, inner, written, ?_, ?_, ?_⟩
  · simp only [inner, FencelessLines, Fenceless, List.forall_mem_flatMap, List.forall_mem_map]
  · rw [code, ← Text.unlines_concat_nil more, Text.lines_unlines_concat_nil flat]
  · rw [if_neg filled] at made
    have whole : text.toList = unlines (fencedLines settings inner ++ [[]]) := by
      rw [← Except.ok.inj made, Text.unlines_concat_nil (by simp [fencedLines]), fencedLines, ← List.singleton_append,
        Text.unlines_append (by simp) (by simp), Text.unlines_append more (by simp)]
      simp [code, unlines, Text.joinOn]
    rw [whole, Text.lines_unlines_concat_nil (flat_fencedLines language flat)]

/-- A document without flaws is rendered as Markdown if each value that shows has a literal. What is rendered are the
lines of its code between two fences. It is one block, and what its reader finds in the first one is the code, exactly
if no part of the document starts a line with a fence. -/
theorem markdown_oneBlock_iff {settings : RenderSettings} {document : Document}
    (checked : settings.checked = .ok settings) (sound : document.flaw? = none)
    (content : document.hasContent = true) :
    ((∃ text, Render.markdown settings document = .ok text) ↔ Writable document) ∧
      ∀ text, Render.markdown settings document = .ok text →
        ∃ code inner, Render.ruby settings document = .ok code ∧ lines code.toList = inner ++ [[]] ∧
          lines text.toList = fencedLines settings inner ++ [[]] ∧
          (OneBlock (fencedLines settings inner) ↔ FencelessDocument document) ∧
          (firstBlock text.toList = code.toList ↔ FencelessDocument document) := by
  refine ⟨exists_markdown_iff sound, fun text success => ?_⟩
  obtain ⟨blank, flat⟩ := indent_of_checked checked
  obtain ⟨rows, inner, written, plain, code, fenced⟩ :=
    exists_lines_markdown (fenceLanguage_of_checked checked) content success
  have parts : (∀ line ∈ inner, isFence line = false) ↔ FencelessDocument document :=
    plain.symm.trans (fencelessLines_ruby blank flat sound written)
  have each : ∀ line ∈ inner, Flat line := fun line member =>
    Text.flat_of_mem_lines (code ▸ List.mem_append_left [[]] member)
  refine ⟨Render.textOf rows, inner, ?_, code, fenced, ?_, ?_⟩
  · rw [Render.ruby, written]
    rfl
  · rw [oneBlock_fencedLines_iff, parts]
  · rw [← Text.unlines_lines (Render.textOf rows).toList, code, firstBlock_eq_iff each fenced, parts]

def stringHolder (value : String) : RubyUnit := { Branch.bare .cls [] "A" with constants := [("X", .str value)] }

def stringDocument (value : String) : Document := ⟨[stringHolder value], [], [], none⟩

/-- A fence in the only line of a string does no harm. One in the next line ends the block: what stands in it breaks
off within the string. -/
theorem markdown_oneBlock_iff_of_string :
    (∃ text inner, Render.markdown .default (stringDocument "```") = .ok text ∧
        lines text.toList = fencedLines .default inner ++ [[]] ∧ OneBlock (fencedLines .default inner)) ∧
      ∃ text inner, Render.markdown .default (stringDocument "a\n```\nb") = .ok text ∧
        lines text.toList = fencedLines .default inner ++ [[]] ∧ ¬OneBlock (fencedLines .default inner) ∧
        firstBlock text.toList = "class A\n  X = \"a\n".toList := by
  have checked : RenderSettings.default.checked = .ok .default := by decide
  have sound (value : String) : (stringDocument value).flaw? = none := rfl
  have content (value : String) : (stringDocument value).hasContent = true := rfl
  constructor
  · obtain ⟨writes, blocks⟩ := markdown_oneBlock_iff checked (sound "```") (content "```")
    have literals : Writable (stringDocument "```") := by
      rintro unit member - entry listed
      rw [List.mem_singleton.mp member] at listed
      rw [List.mem_singleton.mp listed]
      exact ⟨_, rfl⟩
    obtain ⟨text, success⟩ := writes.mpr literals
    obtain ⟨code, inner, -, -, fenced, whole, -⟩ := blocks text success
    refine ⟨text, inner, success, fenced, whole.mpr ⟨by decide, by decide, ?_⟩⟩
    rintro unit member -
    rw [List.mem_singleton.mp member]
    exact ⟨nofun, by decide, by decide, fun accessor => by cases accessor <;> decide, List.forall_mem_nil _,
      by decide, by decide⟩
  · obtain ⟨-, blocks⟩ := markdown_oneBlock_iff checked (sound "a\n```\nb") (content "a\n```\nb")
    have success : Render.markdown .default (stringDocument "a\n```\nb") =
        .ok "```ruby\nclass A\n  X = \"a\n```\nb\"\nend\n```\n" := by decide +kernel
    obtain ⟨code, inner, -, -, fenced, whole, -⟩ := blocks _ success
    refine ⟨_, inner, success, fenced, fun block => ?_, by decide +kernel⟩
    have plain := ((whole.mp block).units _ (List.mem_singleton_self _) rfl).values
    exact absurd (plain _ (List.mem_singleton_self _)).2 (by decide)

end Literate

end LiterateRuby
