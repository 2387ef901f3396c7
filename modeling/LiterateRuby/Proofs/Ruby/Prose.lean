import LiterateRuby.Proofs.Draft.Announced
import LiterateRuby.Proofs.Namespace
import LiterateRuby.Proofs.Ruby.Visibility
import Mathlib.Data.List.Chain
import Mathlib.Data.List.DropRight

/-! # The prose of a definition

The prose of a definition is what the comments directly above it say. While a body is walked, a run of comments is
kept and given up as soon as a row or a statement comes between (`ProseRun.after`). What is kept is the end of the
comments above a statement that goes back as far as they touch one another (`keeps_after`), so it is the longest run
that can be picked among them, and there is no other one if this one does not reach the statement (`isRun_iff`).
`walk_prose` says of every definition in every body with which prose its method is found in the document.
-/

namespace LiterateRuby.Ruby

open Draft (Call)

/-! ## Runs of comments -/

/-- The comments on lines of their own with no other statement between them and the end of statements. -/
def commentsAbove (scene : Scene) (before : List Tree) : List Tree :=
  (before.rtakeWhile Tree.isComment).filter (scene.source.startsLine ·.start)

/-- Whether a tree starts on the row after the one on which another ends. -/
def Below (scene : Scene) (upper lower : Tree) : Prop :=
  scene.source.row lower.start = scene.source.row upper.stop + 1

/-- A run that can be picked among the comments above a statement: each comment is on the row after the one before it,
and the statement on the row after the last. -/
structure IsRun (scene : Scene) (above : List Tree) (statement : Tree) (run : List Tree) : Prop where
  given : run ≠ []
  among : run.Sublist above
  linked : (run ++ [statement]).IsChain (Below scene)

/-- The prose that lines make: their text without the blanks around it, if there is any. -/
def proseOf (lines : List String) : Option String :=
  let text := Text.trimmed ("\n".intercalate lines)
  if text = "" then none else some text

/-- The prose above a statement: what the longest run of comments above it says, and none if there is no run. -/
inductive ProseAbove (scene : Scene) (before : List Tree) (statement : Tree) : Option String → Prop
  | silent (absent : ∀ run, ¬IsRun scene (commentsAbove scene before) statement run) :
    ProseAbove scene before statement none
  | said {run : List Tree} {texts : List String} (runs : IsRun scene (commentsAbove scene before) statement run)
    (longest : ∀ other, IsRun scene (commentsAbove scene before) statement other → other.length ≤ run.length)
    (read : List.Forall₂ (fun comment text => (scene.text comment).result = .ok text) run texts) :
    ProseAbove scene before statement (proseOf (texts.map commentText))

/-- Statements in source order: each starts before it ends, and a comment on a line of its own, as it goes to the end
of its last line, ends on a row above all that stands behind it. -/
structure InSourceOrder (source : Source) (statements : List Tree) : Prop where
  spans : ∀ statement ∈ statements, statement.start ≤ statement.stop
  apart : statements.Pairwise fun first second =>
    first.isComment = true → source.startsLine first.start = true → source.row first.stop < source.row second.start

variable {scene : Scene}

private theorem row_le (source : Source) {first second : Nat} (least : first ≤ second) :
    source.row first ≤ source.row second :=
  ((source.bytes.take_prefix_take_left least).sublist).count_le _

private theorem commentsAbove_concat (before : List Tree) (statement : Tree) :
    commentsAbove scene (before ++ [statement]) =
      if statement.isComment then
        if scene.source.startsLine statement.start then commentsAbove scene before ++ [statement]
        else commentsAbove scene before
      else [] := by
  unfold commentsAbove
  rw [List.rtakeWhile_concat]
  split
  · rw [List.filter_append]
    split
    · next starts => simp [starts]
    · next follows => simp [follows]
  · rfl

private theorem mem_commentsAbove {before : List Tree} {comment : Tree}
    (member : comment ∈ commentsAbove scene before) :
    comment.isComment = true ∧ scene.source.startsLine comment.start = true := by
  obtain ⟨listed, starts⟩ := List.mem_filter.mp member
  exact ⟨List.mem_rtakeWhile_imp listed, starts⟩

/-- The comments above a statement and the statement come one below the other. -/
theorem InSourceOrder.above {before after : List Tree} {statement : Tree}
    (ordered : InSourceOrder scene.source (before ++ statement :: after)) :
    (commentsAbove scene before ++ [statement]).Pairwise
        (fun first second => scene.source.row first.stop < scene.source.row second.start) ∧
      ∀ comment ∈ commentsAbove scene before, scene.source.row comment.start ≤ scene.source.row comment.stop := by
  have among : (commentsAbove scene before).Sublist before :=
    List.filter_sublist.trans (List.rtakeWhile_suffix _ _).sublist
  have within : (commentsAbove scene before ++ [statement]).Sublist (before ++ statement :: after) :=
    among.append (List.singleton_sublist.mpr List.mem_cons_self)
  obtain ⟨comments, -, last⟩ := List.pairwise_append.mp (ordered.apart.sublist within)
  refine ⟨List.pairwise_append.mpr ⟨?_, List.pairwise_singleton _ _, fun comment member other alone => ?_⟩,
    fun comment member => row_le _ (ordered.spans comment (List.mem_append_left _ (among.subset member)))⟩
  · refine comments.imp_of_mem fun member _ apart => ?_
    obtain ⟨comment, starts⟩ := mem_commentsAbove member
    exact apart comment starts
  · obtain ⟨own, starts⟩ := mem_commentsAbove member
    exact last comment member other alone own starts

/-- A run leaves out none of the comments between it and the statement, as no row is left for them. -/
theorem suffix_of_linked {above run : List Tree} {statement : Tree}
    (apart : (above ++ [statement]).Pairwise
      fun first second => scene.source.row first.stop < scene.source.row second.start)
    (spans : ∀ comment ∈ above, scene.source.row comment.start ≤ scene.source.row comment.stop)
    (among : run.Sublist above) (linked : (run ++ [statement]).IsChain (Below scene)) : run <:+ above := by
  induction among with
  | slnil => exact List.suffix_refl _
  | cons comment _ ih =>
    rw [List.cons_append] at apart
    obtain ⟨_, later⟩ := List.pairwise_cons.mp apart
    exact (ih later (fun other member => spans other (List.mem_cons_of_mem _ member)) linked).trans
      (List.suffix_cons _ _)
  | @cons_cons run rest comment _ ih =>
    rw [List.cons_append] at apart
    obtain ⟨first, later⟩ := List.pairwise_cons.mp apart
    obtain ⟨between, rfl⟩ := ih later (fun other member => spans other (List.mem_cons_of_mem _ member)) linked.of_cons
    obtain ⟨next, others, follows⟩ := List.exists_cons_of_ne_nil (List.append_ne_nil_of_right_ne_nil run
      (List.cons_ne_nil statement []))
    rw [List.cons_append, follows] at linked
    have below := linked.rel
    have empty : between = [] := by
      refine List.eq_nil_iff_forall_not_mem.mpr fun other member => ?_
      have under := first other (List.mem_append_left _ (List.mem_append_left _ member))
      have long := spans other (List.mem_cons_of_mem _ (List.mem_append_left _ member))
      have beyond : scene.source.row other.stop < scene.source.row next.start := by
        rw [List.append_assoc, follows] at later
        exact (List.pairwise_append.mp later).2.2 other member next List.mem_cons_self
      rw [Below] at below
      omega
    rw [empty, List.nil_append]

/-! ## The run that is kept -/

/-- The run that is kept after comments: they end with its comments, which touch one another, and the comment before
them does not touch the first. -/
structure Keeps (scene : Scene) (front group : List Tree) (run : ProseRun) : Prop where
  linked : group.IsChain (Below scene)
  cut : ∀ upper ∈ front.getLast?, ∀ lower ∈ group.head?, ¬Below scene upper lower
  whole : group = [] → front = []
  read : ∃ texts, List.Forall₂ (fun comment text => (scene.text comment).result = .ok text) group texts ∧
    run.lines = texts.map commentText
  row : ∀ last ∈ group.getLast?, run.lastRow = scene.source.row last.stop

private theorem keeps_nothing : Keeps scene [] [] {} where
  linked := .nil
  cut := by simp
  whole := by simp
  read := ⟨[], .nil, rfl⟩
  row := by simp

/-- A run touches what is below its last comment. -/
theorem Keeps.touches_iff {front group : List Tree} {run : ProseRun} (keeps : Keeps scene front group run)
    (tree : Tree) : run.touches scene tree = true ↔ ∃ last ∈ group.getLast?, Below scene last tree := by
  obtain ⟨texts, read, lines⟩ := keeps.read
  have length := read.length_eq
  unfold ProseRun.touches
  cases last : group.getLast? with
  | none =>
    rw [List.getLast?_eq_none_iff.mp last] at length
    have empty : texts = [] := List.length_eq_zero_iff.mp length.symm
    simp [lines, empty]
  | some comment =>
    have given : texts ≠ [] := by
      rintro rfl
      rw [List.length_eq_zero_iff.mp length] at last
      cases last
    simp [lines, given, Below, keeps.row comment last]

private theorem after_append (run : ProseRun) (first second : List Tree) :
    run.after scene (first ++ second) = run.after scene first >>= fun next => next.after scene second := by
  induction first generalizing run with
  | nil => rfl
  | cons statement rest ih =>
    rw [List.cons_append, ProseRun.after, ProseRun.after]
    split
    · rw [bind_assoc]
      exact congrArg _ (funext fun next => ih next)
    · exact ih {}

/-- What is kept after a comment. -/
theorem Keeps.add {front group : List Tree} {run next : ProseRun} (keeps : Keeps scene front group run)
    {comment : Tree} (added : (run.add scene comment).result = .ok next) :
    ∃ before kept, (if scene.source.startsLine comment.start then front ++ group ++ [comment] else front ++ group) =
      before ++ kept ∧ Keeps scene before kept next := by
  unfold ProseRun.add at added
  split at added
  · next starts =>
    rw [if_pos starts]
    rw [Outcome.result_bind] at added
    obtain ⟨text, said, same⟩ := Except.bind_eq_ok_iff.mp added
    cases same
    obtain ⟨texts, read, lines⟩ := keeps.read
    by_cases touches : run.touches scene comment = true
    · -- the comment goes on with the run
      obtain ⟨last, ends, below⟩ := (keeps.touches_iff comment).mp touches
      have given : group ≠ [] := List.ne_nil_of_mem (List.mem_of_getLast? ends)
      refine ⟨front, group ++ [comment], List.append_assoc _ _ _, ?_, ?_, by simp, ?_, by simp⟩
      · refine List.isChain_append.mpr ⟨keeps.linked, .singleton _, fun upper final lower first => ?_⟩
        cases Option.mem_unique final ends
        cases first
        exact below
      · intro upper final lower first
        rw [List.head?_append_of_ne_nil _ given] at first
        exact keeps.cut upper final lower first
      · exact ⟨texts ++ [text], List.rel_append read (.cons said .nil), by simp [touches, lines]⟩
    · -- the comment starts another run
      refine ⟨front ++ group, [comment], rfl, .singleton _, ?_, by simp, ?_, by simp⟩
      · rintro upper final lower ⟨⟩ below
        by_cases empty : group = []
        · rw [empty, keeps.whole empty] at final
          cases final
        · rw [List.getLast?_append_of_ne_nil _ empty] at final
          exact touches ((keeps.touches_iff comment).mpr ⟨upper, final, below⟩)
      · exact ⟨[text], .cons said .nil, by simp [touches]⟩
  · next follows =>
    rw [if_neg follows]
    cases added
    exact ⟨front, group, rfl, keeps⟩

/-- What is kept after statements are the last of the comments above what follows, as far as they touch. -/
theorem keeps_after {before : List Tree} {run : ProseRun} (success : ProseRun.after scene {} before = .ok run) :
    ∃ front group, commentsAbove scene before = front ++ group ∧ Keeps scene front group run := by
  induction before using List.reverseRecOn generalizing run with
  | nil =>
    cases success
    exact ⟨[], [], rfl, keeps_nothing⟩
  | append_singleton before statement ih =>
    rw [after_append] at success
    obtain ⟨middle, kept, last⟩ := Except.bind_eq_ok_iff.mp success
    obtain ⟨front, group, above, keeps⟩ := ih kept
    rw [commentsAbove_concat, above]
    rw [ProseRun.after] at last
    split at last
    · next comment =>
      obtain ⟨next, added, same⟩ := Except.bind_eq_ok_iff.mp last
      cases same
      rw [if_pos comment]
      exact keeps.add added
    · next other =>
      cases last
      rw [if_neg other]
      exact ⟨[], [], rfl, keeps_nothing⟩

/-- The runs above a statement are the ends of the run that is kept, if it reaches the statement. -/
theorem Keeps.isRun_iff {front group run : List Tree} {kept : ProseRun} {statement : Tree}
    (keeps : Keeps scene front group kept)
    (apart : (front ++ group ++ [statement]).Pairwise
      fun first second => scene.source.row first.stop < scene.source.row second.start)
    (spans : ∀ comment ∈ front ++ group, scene.source.row comment.start ≤ scene.source.row comment.stop) :
    IsRun scene (front ++ group) statement run ↔ run ≠ [] ∧ run <:+ group ∧ kept.touches scene statement = true := by
  rw [keeps.touches_iff]
  constructor
  · rintro ⟨given, among, linked⟩
    have ends : run <:+ front ++ group := suffix_of_linked apart spans among linked
    obtain ⟨own, -, reaches⟩ := List.isChain_append.mp linked
    have within : run <:+ group := by
      rcases List.suffix_or_suffix_of_suffix ends (List.suffix_append front group) with within | ⟨more, rfl⟩
      · exact within
      · -- a comment before the kept ones would touch the first of them
        obtain ⟨others, whole⟩ := ends
        rw [← List.append_assoc, List.append_cancel_right_eq] at whole
        obtain rfl : more = [] := by
          by_contra given
          obtain ⟨upper, last⟩ := Option.ne_none_iff_exists'.mp fun absent =>
            given (List.getLast?_eq_none_iff.mp absent)
          have final : front.getLast? = some upper := by
            rw [← whole, List.getLast?_append_of_ne_nil _ given, last]
          have filled : group ≠ [] := fun empty => by
            rw [keeps.whole empty] at final
            cases final
          obtain ⟨lower, rest, rfl⟩ := List.exists_cons_of_ne_nil filled
          exact keeps.cut upper final lower rfl ((List.isChain_append.mp own).2.2 upper last lower rfl)
        exact List.suffix_refl _
    obtain ⟨last, final⟩ := Option.ne_none_iff_exists'.mp fun absent =>
      given (List.getLast?_eq_none_iff.mp absent)
    obtain ⟨others, rfl⟩ := within
    exact ⟨given, List.suffix_append _ _, last, by rw [List.getLast?_append_of_ne_nil _ given, final, Option.mem_def],
      reaches last final statement rfl⟩
  · rintro ⟨given, within, last, final, below⟩
    have linked : (group ++ [statement]).IsChain (Below scene) := by
      refine List.isChain_append.mpr ⟨keeps.linked, .singleton _, fun upper ends lower first => ?_⟩
      cases Option.mem_unique ends final
      cases first
      exact below
    obtain ⟨others, rfl⟩ := within
    refine ⟨given, (List.sublist_append_right _ _).trans (List.sublist_append_right _ _), ?_⟩
    rw [List.append_assoc] at linked
    exact linked.right_of_append

/-- The prose that the run which is kept gives to a statement is that above the statement. -/
theorem proseAbove_iff {before after : List Tree} {statement : Tree} {kept : ProseRun}
    (success : ProseRun.after scene {} before = .ok kept)
    (ordered : InSourceOrder scene.source (before ++ statement :: after)) (prose : Option String) :
    ProseAbove scene before statement prose ↔ prose = kept.proseFor scene statement := by
  obtain ⟨front, group, above, keeps⟩ := keeps_after success
  obtain ⟨apart, spans⟩ := ordered.above
  have runs (run : List Tree) := @Keeps.isRun_iff scene front group run kept statement keeps (above ▸ apart)
    (above ▸ spans)
  obtain ⟨texts, read, lines⟩ := keeps.read
  unfold ProseRun.proseFor
  by_cases touches : kept.touches scene statement = true
  · obtain ⟨last, final, -⟩ := (keeps.touches_iff statement).mp touches
    have given : group ≠ [] := List.ne_nil_of_mem (List.mem_of_getLast? final)
    have whole : IsRun scene (commentsAbove scene before) statement group := by
      rw [above]
      exact (runs group).mpr ⟨given, List.suffix_refl _, touches⟩
    have longest : ∀ other, IsRun scene (commentsAbove scene before) statement other →
        other.length ≤ group.length := by
      intro other run
      rw [above] at run
      exact ((runs other).mp run).2.1.length_le
    rw [if_pos touches, lines]
    constructor
    · rintro (absent | ⟨run, most, same⟩)
      · exact absurd whole (absent group)
      · rw [above] at run
        obtain rfl := ((runs _).mp run).2.1.eq_of_length_le (most group whole)
        cases (Except.mapM_eq_ok_iff.mpr same).symm.trans (Except.mapM_eq_ok_iff.mpr read)
        rfl
    · rintro rfl
      exact .said whole longest read
  · have absent : ∀ run, ¬IsRun scene (commentsAbove scene before) statement run := by
      intro run runs'
      rw [above] at runs'
      exact touches ((runs run).mp runs').2.2
    rw [if_neg touches]
    constructor
    · rintro (_ | ⟨run, _, _⟩)
      · rfl
      · exact absurd run (absent _)
    · rintro rfl
      exact .silent absent

/-! ## The definitions of a statement -/

/-- The definitions that a statement of a unit body makes: itself, or those among the arguments of a visibility
keyword. -/
def definitionsIn (scene : Scene) (statement : Tree) : List Tree :=
  if isDefinition statement then [statement]
  else if statement.kind = "call" then
    match (visibilityKeyword? scene statement).result with
    | .ok (some _) => (argumentsOf statement).filter isDefinition
    | _ => []
  else []

/-- The name that a definition gives to its method, after the object that the method is defined on. -/
def boundName (scene : Scene) (definition : Tree) : Except WalkFault String := do
  let name ← (ofTree (partText scene.source (definition.child? "name"))).result
  match (definition.child? "object").filter fun object =>
      definition.kind == "singleton_method" && object.kind != "self" with
  | none => return name
  | some object => return (← (scene.text object).result) ++ "." ++ name

/-- What a definition says of its method. -/
structure DefinesAs (scene : Scene) (definition : Tree) (name : String) (parameters : List Parameter)
    (body : String) : Prop where
  name : boundName scene definition = .ok name
  parameters : (parametersOf scene (definition.child? "parameters")).result = .ok parameters
  body : (bodyOf scene definition).result = .ok body

/-- An entry that says what a definition does, with a given prose. -/
def DefinesWith (scene : Scene) (prose : Option String) (definition : Tree) (entry : Draft.MethodEntry) : Prop :=
  DefinesAs scene definition entry.name entry.parameters entry.body ∧ entry.prose = prose

private theorem definesWith_of_entryOf {definition : Tree} {context : MethodContext} {name : String}
    {entry : Draft.MethodEntry} (named : boundName scene definition = .ok name)
    (success : entryOf scene definition context name = .ok entry) :
    DefinesWith scene context.prose definition entry := by
  obtain ⟨parameters, declared, remains⟩ := Except.bind_eq_ok_iff.mp success
  obtain ⟨body, read, same⟩ := Except.bind_eq_ok_iff.mp remains
  cases same
  exact ⟨⟨named, declared, read⟩, rfl⟩

private theorem methodCalls_eq_ok {unit : String} {definition : Tree} {context : MethodContext} {calls : List Call}
    (kind : definition.kind = "method") (success : methodCalls scene unit definition context = .ok calls) :
    ∃ entry, calls = [.addMethod unit entry] ∧ DefinesWith scene context.prose definition entry := by
  obtain ⟨name, read, remains⟩ := Except.bind_eq_ok_iff.mp success
  obtain ⟨entry, made, same⟩ := Except.bind_eq_ok_iff.mp remains
  cases same
  refine ⟨entry, rfl, definesWith_of_entryOf ?_ made⟩
  simp [boundName, read, kind, pure, Except.pure]

private theorem objectMethodCalls_eq_ok {unit : String} {definition : Tree} {context : MethodContext}
    {calls : List Call}
    (kind : definition.kind = "singleton_method")
    (success : objectMethodCalls scene unit definition context = .ok calls) :
    ∃ entry, calls = [.addMethod unit entry] ∧ DefinesWith scene context.prose definition entry := by
  obtain ⟨name, read, remains⟩ := Except.bind_eq_ok_iff.mp success
  split at remains
  · next self =>
    obtain ⟨entry, made, same⟩ := Except.bind_eq_ok_iff.mp remains
    cases same
    have named : boundName scene definition = .ok name := by
      simp [boundName, read, kind, self, pure, Except.pure]
    have told := definesWith_of_entryOf named made
    exact ⟨entry, rfl, told⟩
  · next object other =>
    obtain ⟨receiver, said, remains⟩ := Except.bind_eq_ok_iff.mp remains
    obtain ⟨entry, made, same⟩ := Except.bind_eq_ok_iff.mp remains
    cases same
    have named : boundName scene definition = .ok (receiver ++ "." ++ name) := by
      simp [boundName, read, kind, other, said, pure, Except.pure]
    have told := definesWith_of_entryOf named made
    exact ⟨entry, rfl, told⟩

/-- The entries of the methods that calls add to a unit. -/
def entriesTo (unit : String) (calls : List Call) : List Draft.MethodEntry :=
  (Draft.callsTo unit calls).filterMap Call.entry?

@[simp] theorem entriesTo_append (unit : String) (first second : List Call) :
    entriesTo unit (first ++ second) = entriesTo unit first ++ entriesTo unit second := by
  simp [entriesTo, Draft.callsTo]

private theorem entriesTo_addMethod (unit : String) (entry : Draft.MethodEntry) :
    entriesTo unit [.addMethod unit entry] = [entry] := by
  simp [entriesTo, Draft.callsTo, Call.unit?, Call.entry?]

/-- An argument of a visibility keyword adds a method exactly if it is a definition. -/
theorem entriesTo_argumentCalls {unit : String} {visibility : Visibility} {prose : Option String} {argument : Tree}
    {calls : List Call} (success : argumentCalls scene unit visibility prose argument = .ok calls) :
    List.Forall₂ (DefinesWith scene prose) ([argument].filter isDefinition) (entriesTo unit calls) := by
  unfold argumentCalls at success
  split at success
  · next kind =>
    obtain ⟨entry, rfl, told⟩ := methodCalls_eq_ok kind success
    rw [List.filter_cons_of_pos (by simp [isDefinition, kind]), entriesTo_addMethod]
    exact .cons told .nil
  · next kind =>
    obtain ⟨entry, rfl, told⟩ := objectMethodCalls_eq_ok kind success
    rw [List.filter_cons_of_pos (by simp [isDefinition, kind]), entriesTo_addMethod]
    exact .cons told .nil
  · next method singleton =>
    obtain ⟨name, _, remains⟩ := Except.bind_eq_ok_iff.mp success
    have silent : entriesTo unit calls = [] := by
      cases name <;> cases remains <;> simp [entriesTo, Draft.callsTo, Call.unit?, Call.entry?]
    rw [silent, List.filter_cons_of_neg (by simpa [isDefinition] using ⟨method, singleton⟩)]
    exact .nil

private theorem entriesTo_arguments {unit : String} {visibility : Visibility} {prose : Option String}
    {arguments : List Tree}
    {parts : List (List Call)} (success : arguments.mapM (argumentCalls scene unit visibility prose) = .ok parts) :
    List.Forall₂ (DefinesWith scene prose) (arguments.filter isDefinition) (entriesTo unit parts.flatten) := by
  induction Except.mapM_eq_ok_iff.mp success with
  | nil => exact .nil
  | @cons argument calls rest others made all ih =>
    rw [List.flatten_cons, entriesTo_append, ← List.singleton_append, List.filter_append]
    exact List.rel_append (entriesTo_argumentCalls made) (ih (Except.mapM_eq_ok_iff.mpr all))

/-- A call that a visibility keyword names makes the calls of this keyword. -/
theorem statementCalls_of_keyword {unit : String} {statement : Tree} {prose : Option String} {keyword : Visibility}
    (called : statement.kind = "call") (named : (visibilityKeyword? scene statement).result = .ok (some keyword)) :
    statementCalls scene unit statement prose =
      visibilityCalls scene unit keyword (argumentsOf statement) prose := by
  have direct : (statement.child? "receiver").isSome = false := by
    cases receiver : (statement.child? "receiver").isSome with
    | true => simp [visibilityKeyword?, called, receiver] at named
    | false => rfl
  rw [visibilityKeyword?, called] at named
  simp only [direct, Bool.false_eq_true, if_false, Outcome.result_bind] at named
  obtain ⟨name, read, same⟩ := Except.bind_eq_ok_iff.mp named
  have word : Visibility.ofKeyword? (name.getD "") = some keyword := by
    rw [ofKeyword?_getD]
    exact Except.ok.inj same
  rw [statementCalls, called]
  simp only [callCalls, direct, Bool.false_eq_true, if_false, read, Except.ok_bind, word]

/-- A statement adds the methods that its definitions say, all with the prose above the statement. -/
theorem entriesTo_statementCalls {unit : String} {statement : Tree} {prose : Option String} {calls : List Call}
    (defines : definitionsIn scene statement ≠ [])
    (success : statementCalls scene unit statement prose = .ok calls) :
    List.Forall₂ (DefinesWith scene prose) (definitionsIn scene statement) (entriesTo unit calls) := by
  unfold definitionsIn at defines ⊢
  split at defines
  · next definition =>
    rw [if_pos definition]
    rcases Bool.or_eq_true_iff.mp definition with same | same
    · have kind := beq_iff_eq.mp same
      rw [statementCalls, kind] at success
      obtain ⟨entry, rfl, told⟩ := methodCalls_eq_ok kind success
      rw [entriesTo_addMethod]
      exact .cons told .nil
    · have kind := beq_iff_eq.mp same
      rw [statementCalls, kind] at success
      obtain ⟨entry, rfl, told⟩ := objectMethodCalls_eq_ok kind success
      rw [entriesTo_addMethod]
      exact .cons told .nil
  · next other =>
    rw [if_neg other]
    split at defines
    · next called =>
      rw [if_pos called]
      split at defines
      · next keyword said =>
        have arguments : (argumentsOf statement).isEmpty = false := by
          cases empty : (argumentsOf statement).isEmpty with
          | true => exact absurd (by simp [List.isEmpty_iff.mp empty]) defines
          | false => rfl
        rw [statementCalls_of_keyword called said, visibilityCalls, arguments] at success
        obtain ⟨parts, all, same⟩ := Except.bind_eq_ok_iff.mp success
        cases same
        exact entriesTo_arguments all
      · exact absurd rfl defines
    · exact absurd rfl defines

/-! ## The methods of a document -/

private theorem isPlain_of_definitions {statement : Tree} (defines : definitionsIn scene statement ≠ []) :
    isPlain statement = true := by
  unfold definitionsIn at defines
  split at defines
  · next definition => exact isPlain_of_isDefinition definition
  · split at defines
    · next called => simp [isPlain, Tree.isComment, isUnit, called]
    · exact absurd rfl defines

/-- The units of a document that was walked have the methods whose entries the walk adds, in their order, and each unit
to which methods are added is there. -/
theorem methods_of_walk {filename : Option String} {document : Document}
    (success : (walk scene (Draft.empty filename)).result = .ok document) :
    ∃ events paths, eventsOf scene scene.root.namedChildren [] = .ok (events, paths) ∧
      ∀ name, entriesTo name (callsOf events) ≠ [] → ∃ unit ∈ document.units, unit.qualifiedName = name ∧
        List.Forall₂ (fun method entry => entry.Gives method) unit.methods (entriesTo name (callsOf events)) := by
  obtain ⟨events, paths, draft, told, run, enclosed, rfl⟩ := walk_eq_ok success
  refine ⟨events, paths, told, fun name added => ?_⟩
  have methods : (draft.methodState name).methods = Draft.announced (Draft.callsTo name (callsOf events)) := by
    rw [run.methodState name, methodState_empty, Draft.methodsAfter_eq_toldState, Draft.toldState]
  have given := Draft.gives_announcedAfter [] (Draft.callsTo name (callsOf events))
  rw [← Draft.announced, ← methods] at given
  have found := enclosed.keyed.unit?_document name
  cases present : draft.units.get? name with
  | none =>
    rw [Draft.methodState, present] at given
    exact absurd (List.forall₂_nil_left_iff.mp given) added
  | some held =>
    rw [present] at found
    have named : held.frozen.qualifiedName = name := by simpa using List.find?_some found
    refine ⟨held.frozen, List.mem_of_find?_eq_some found, named, ?_⟩
    rw [enclosed.keyed.methods_of_document (List.mem_of_find?_eq_some found), named]
    exact given

private theorem forall₂_split {α β : Type} {R : α → β → Prop} {items : List α} {first second : List β}
    (related : List.Forall₂ R items (first ++ second)) :
    ∃ before after, items = before ++ after ∧ List.Forall₂ R before first ∧ List.Forall₂ R after second :=
  ⟨_, _, (List.take_append_drop first.length items).symm, List.forall₂_take_append _ _ _ related,
    List.forall₂_drop_append _ _ _ related⟩

private theorem forall₂_through {α β γ : Type} {R : α → β → Prop} {S : γ → β → Prop} {first : List α}
    {middle : List β}
    {second : List γ} (left : List.Forall₂ R first middle) (right : List.Forall₂ S second middle) :
    List.Forall₂ (fun item other => ∃ shared, R item shared ∧ S other shared) first second := by
  induction left generalizing second with
  | nil =>
    rw [List.forall₂_nil_right_iff.mp right]
    exact .nil
  | cons related _ ih =>
    obtain ⟨other, others, same, rest, rfl⟩ := List.forall₂_cons_right_iff.mp right
    exact .cons ⟨_, related, same⟩ (ih rest)

/-- Every definition in every body of a tree, by itself or as an argument of a visibility keyword, gives its unit a
method at its place among the methods, and the prose of this method is that above the statement of the definition. -/
theorem walk_prose {filename : Option String} {document : Document}
    (success : (walk scene (Draft.empty filename)).result = .ok document) :
    ∃ events paths, eventsOf scene scene.root.namedChildren [] = .ok (events, paths) ∧
      ∀ name tree, Body scene name tree → ∀ before statement after,
        statementsOf tree = before ++ statement :: after → definitionsIn scene statement ≠ [] →
        InSourceOrder scene.source (statementsOf tree) →
        ∃ front calls back, events = front ++ .statement name before statement calls :: back ∧
          ∃ unit ∈ document.units, unit.qualifiedName = name ∧
            ∃ earlier recorded later, unit.methods = earlier ++ recorded ++ later ∧
              earlier.length = (entriesTo name (callsOf front)).length ∧
              List.Forall₂ (fun definition method =>
                DefinesAs scene definition method.name method.parameters method.body ∧
                  ∀ prose, ProseAbove scene before statement prose ↔ prose = method.prose)
                (definitionsIn scene statement) recorded := by
  obtain ⟨events, paths, told, methods⟩ := methods_of_walk success
  refine ⟨events, paths, told, fun name tree body before statement after split defines ordered => ?_⟩
  obtain ⟨front, opening, inner, calls, back, kept, rfl, -, -, run, makes⟩ :=
    body.states told split (isPlain_of_definitions defines)
  have said := entriesTo_statementCalls defines makes
  have place : front ++ .opening name opening :: (inner ++ .statement name before statement calls :: back) =
      (front ++ .opening name opening :: inner) ++ .statement name before statement calls :: back := by simp
  rw [place] at methods ⊢
  generalize front ++ .opening name opening :: inner = front at methods
  have entries : entriesTo name (callsOf (front ++ .statement name before statement calls :: back)) =
      entriesTo name (callsOf front) ++ (entriesTo name calls ++ entriesTo name (callsOf back)) := by
    rw [callsOf_append, callsOf_cons, entriesTo_append, entriesTo_append, Event.calls]
  have added : entriesTo name (callsOf (front ++ .statement name before statement calls :: back)) ≠ [] := by
    intro empty
    rw [entries, List.append_eq_nil_iff, List.append_eq_nil_iff] at empty
    rw [empty.2.1] at said
    exact defines (List.forall₂_nil_right_iff.mp said)
  obtain ⟨unit, member, named, given⟩ := methods name added
  rw [entries] at given
  obtain ⟨earlier, others, whole, first, rest⟩ := forall₂_split given
  obtain ⟨recorded, later, rfl, own, -⟩ := forall₂_split rest
  rw [split] at ordered
  refine ⟨front, calls, back, rfl, unit, member, named, earlier, recorded, later, by rw [whole, List.append_assoc],
    first.length_eq, (forall₂_through said own).imp ?_⟩
  rintro definition method ⟨entry, ⟨saying, prose⟩, gives⟩
  refine ⟨?_, fun other => ?_⟩
  · rw [gives.name, gives.parameters, gives.body]
    exact saying
  · rw [proseAbove_iff run ordered, gives.prose, prose]

def noteAt (start stop : Nat) : Tree := .node { kind := "comment", start, stop } []

/-- A definition on `self`. -/
def hiddenDefinition : Tree :=
  .node { kind := "singleton_method", start := 43, stop := 59 }
    [.node { kind := "self", start := 47, stop := 51, field := some "object" } [],
      .node { kind := "identifier", start := 52, stop := 53, field := some "name" } []]

/-- A keyword that makes the definition private. -/
def hidingCall : Tree :=
  .node { kind := "call", start := 35, stop := 59 }
    [.node { kind := "identifier", start := 35, stop := 42, field := some "method" } [],
      .node { kind := "argument_list", start := 43, stop := 59, field := some "arguments" } [hiddenDefinition]]

def shownDefinition : Tree :=
  .node { kind := "method", start := 77, stop := 88 }
    [.node { kind := "identifier", start := 81, stop := 82, field := some "name" } []]

/-- A class with comments: one above an empty row, two above a definition, one behind it and one above another. -/
def notedClass : Tree :=
  .node { kind := "class", start := 0, stop := 92 }
    [.node { kind := "constant", start := 6, stop := 7, field := some "name" } [],
      .node { kind := "body_statement", start := 10, stop := 88, field := some "body" }
        [noteAt 10 15, noteAt 19 24, noteAt 27 32, hidingCall, noteAt 60 64, noteAt 67 74, shownDefinition]]

/-- The source of the class. -/
def noted : Scene where
  source := .ofText
    "class A\n  # far\n\n  # one\n  # two\n  private def self.f\n  end # at\n  # three\n  def g\n  end\nend\n"
  root := .node { kind := "program", start := 0, stop := 93 } [notedClass]

/-- The comments that touch are the prose of the private definition, and the comment behind it is nobody's. -/
theorem walk_prose_of_noted :
    (∃ document, (walk noted (Draft.empty none)).result = .ok document ∧
      document.units.map (fun unit => (unit.qualifiedName, unit.methods.map fun method => (method.name, method.prose))) =
        [("A", [("f", some "one\ntwo"), ("g", some "three")])]) ∧
    ProseAbove noted [noteAt 10 15, noteAt 19 24, noteAt 27 32] hidingCall (some "one\ntwo") ∧
    ProseAbove noted [noteAt 10 15, noteAt 19 24, noteAt 27 32, hidingCall, noteAt 60 64, noteAt 67 74]
      shownDefinition (some "three") := by
  have reads : (walk noted (Draft.empty none)).result.toOption.map (·.units.map fun unit =>
      (unit.qualifiedName, unit.methods.map fun method => (method.name, method.prose))) =
        some [("A", [("f", some "one\ntwo"), ("g", some "three")])] := by decide +kernel
  obtain ⟨document, success, units⟩ := Except.exists_of_toOption reads
  obtain ⟨events, paths, -, holds⟩ := walk_prose success
  have body : Body noted "A" notedClass :=
    .outer (by simp [noted, Tree.namedChildren, Tree.children, notedClass, Tree.label]) (by decide) (by decide +kernel)
  have ordered : InSourceOrder noted.source (statementsOf notedClass) :=
    ⟨by decide +kernel, by decide +kernel⟩
  have proses {name : String} {before after : List Tree} {statement definition : Tree}
      (split : statementsOf notedClass = before ++ statement :: after)
      (single : definitionsIn noted statement = [definition]) (named : boundName noted definition = .ok name) :
      ∃ prose, ProseAbove noted before statement prose ∧
        (name, prose) ∈ [("f", some "one\ntwo"), ("g", some "three")] := by
    obtain ⟨_, _, _, _, unit, member, key, earlier, recorded, later, methods, _, given⟩ :=
      holds "A" notedClass body before statement after split (by simp [single]) ordered
    rw [single] at given
    obtain ⟨method, _, ⟨told, prose⟩, _, rfl⟩ := List.forall₂_cons_left_iff.mp given
    obtain rfl : name = method.name := Except.ok.inj (named.symm.trans told.name)
    have listed : (unit.qualifiedName, unit.methods.map fun method => (method.name, method.prose)) ∈
        [("A", [("f", some "one\ntwo"), ("g", some "three")])] :=
      units ▸ List.mem_map_of_mem member
    refine ⟨method.prose, (prose _).mpr rfl, ?_⟩
    rw [← (Prod.mk.inj (List.mem_singleton.mp listed)).2, methods]
    exact List.mem_map_of_mem (by simp)
  have hides : (visibilityKeyword? noted hidingCall).result = .ok (some .priv) := by decide +kernel
  have single : definitionsIn noted hidingCall = [hiddenDefinition] := by
    rw [definitionsIn, if_neg (by decide), if_pos (by decide), hides]
    rfl
  refine ⟨⟨document, success, units⟩, ?_, ?_⟩
  · obtain ⟨prose, above, listed⟩ := @proses "f" [noteAt 10 15, noteAt 19 24, noteAt 27 32]
      [noteAt 60 64, noteAt 67 74, shownDefinition] hidingCall hiddenDefinition rfl single (by decide +kernel)
    obtain rfl : prose = some "one\ntwo" := by simpa using listed
    exact above
  · obtain ⟨prose, above, listed⟩ := @proses "g"
      [noteAt 10 15, noteAt 19 24, noteAt 27 32, hidingCall, noteAt 60 64, noteAt 67 74] [] shownDefinition
      shownDefinition rfl (by rfl) (by decide +kernel)
    obtain rfl : prose = some "three" := by simpa using listed
    exact above

end LiterateRuby.Ruby
