import LiterateRuby.Proofs.Outcome
import LiterateRuby.Ruby.Walk

/-! # The order of parameters

Ruby prescribes the order in which a definition declares its parameters; only required and optional keywords
may stand in any mix (`Signature`). Parameters are sorted by the ranks of their kinds, and a required parameter
behind an optional or a rest parameter has the rank of the latter. Sorting keeps parameters of one rank in their
order, so what is declared in Ruby's order stays as it is, but that the required keywords go before the optional
ones (`orderParameters_declared`). `parametersOf_declared` says this of the trees that declare the parameters.
-/

namespace LiterateRuby.Ruby

/-! ## Ruby's order -/

/-- Parameters in Ruby's order, in the groups that follow each other. -/
structure Signature where
  leading : List Parameter
  optional : List Parameter
  rest : Option Parameter
  /-- Required ones behind the optional ones and the rest. -/
  trailing : List Parameter
  /-- Required and optional keywords in any mix. -/
  keywords : List Parameter
  keywordRest : Option Parameter
  /-- A block, or the arguments that are handed on. -/
  last : Option Parameter
  leading_kind : ∀ parameter ∈ leading, parameter.kind = .required
  optional_kind : ∀ parameter ∈ optional, parameter.kind = .optional
  rest_kind : ∀ parameter ∈ rest, parameter.kind = .rest
  trailing_kind : ∀ parameter ∈ trailing, parameter.kind = .required
  keywords_kind : ∀ parameter ∈ keywords, parameter.kind = .requiredKeyword ∨ parameter.kind = .optionalKeyword
  keywordRest_kind : ∀ parameter ∈ keywordRest, parameter.kind = .keywordRest
  last_kind : ∀ parameter ∈ last, parameter.kind = .block ∨ parameter.kind = .forward

namespace Signature

/-- The parameters before the keywords. -/
def positional (signature : Signature) : List Parameter :=
  signature.leading ++ signature.optional ++ signature.rest.toList ++ signature.trailing

/-- The parameters behind the keywords. -/
def closing (signature : Signature) : List Parameter :=
  signature.keywordRest.toList ++ signature.last.toList

/-- The parameters as they are declared. -/
def declared (signature : Signature) : List Parameter :=
  signature.positional ++ signature.keywords ++ signature.closing

def keywordsOf (signature : Signature) (kind : Parameter.Kind) : List Parameter :=
  signature.keywords.filter (·.kind == kind)

/-- The keywords, the required ones first. -/
def sortedKeywords (signature : Signature) : List Parameter :=
  signature.keywordsOf .requiredKeyword ++ signature.keywordsOf .optionalKeyword

/-- The parameters as they are declared, but with the required keywords before the optional ones. -/
def listed (signature : Signature) : List Parameter :=
  signature.positional ++ signature.sortedKeywords ++ signature.closing

end Signature

/-! ## Sorting by rank -/

def Ascending (ranked : List (Nat × Parameter)) : Prop := ranked.Pairwise fun left right => left.1 ≤ right.1

/-- Sorted lists that hold the same of each rank, in the same order, are the same. -/
theorem Ascending.eq_of_alike {first second : List (Nat × Parameter)} (rises : Ascending first)
    (climbs : Ascending second)
    (alike : ∀ rank, first.filter (·.1 == rank) = second.filter (·.1 == rank)) : first = second := by
  induction first generalizing second with
  | nil =>
    cases second with
    | nil => rfl
    | cons entry rest => simpa using alike entry.1
  | cons entry rest ih =>
    cases second with
    | nil => simpa using alike entry.1
    | cons other others =>
      obtain ⟨least, restRises⟩ := List.pairwise_cons.mp rises
      obtain ⟨lowest, othersClimb⟩ := List.pairwise_cons.mp climbs
      -- the first entry of each list has the least rank of both
      have below : other.1 ≤ entry.1 := by
        have member : entry ∈ (other :: others).filter (·.1 == entry.1) := by simp [← alike]
        rcases List.mem_cons.mp (List.mem_filter.mp member).1 with same | later
        · exact same ▸ Nat.le_refl _
        · exact lowest entry later
      have above : entry.1 ≤ other.1 := by
        have member : other ∈ (entry :: rest).filter (·.1 == other.1) := by simp [alike]
        rcases List.mem_cons.mp (List.mem_filter.mp member).1 with same | later
        · exact same ▸ Nat.le_refl _
        · exact least other later
      have level : entry.1 = other.1 := Nat.le_antisymm above below
      obtain rfl : entry = other := by
        have heads := alike entry.1
        simp only [List.filter_cons, beq_self_eq_true, ↓reduceIte, ← level, List.cons.injEq] at heads
        exact heads.1
      refine congrArg _ (ih restRises othersClimb fun rank => ?_)
      have tails := alike rank
      simp only [List.filter_cons] at tails
      split at tails
      · exact (List.cons.inj tails).2
      · exact tails

private theorem filter_mergeSort (ranked : List (Nat × Parameter)) (rank : Nat) :
    (ranked.mergeSort fun left right => left.1 ≤ right.1).filter (·.1 == rank) =
      ranked.filter (·.1 == rank) := by
  symm
  have level : (ranked.filter (·.1 == rank)).Pairwise fun left right => decide (left.1 ≤ right.1) = true := by
    rw [List.pairwise_filter]
    apply List.pairwise_of_forall
    intro left right here there
    simp only [beq_iff_eq] at here there
    simp [here, there]
  have kept := (List.sublist_mergeSort (by simp; omega) (by simp; omega) level List.filter_sublist).filter
    (·.1 == rank)
  rw [List.filter_filter] at kept
  simp only [Bool.and_self] at kept
  apply kept.eq_of_length
  exact ((List.mergeSort_perm ranked _).filter _).length_eq.symm

/-- A list that is sorted and holds the same of each rank, in the same order, is the result of sorting. -/
theorem mergeSort_eq_of_alike {ranked sorted : List (Nat × Parameter)} (rises : Ascending sorted)
    (alike : ∀ rank, ranked.filter (·.1 == rank) = sorted.filter (·.1 == rank)) :
    ranked.mergeSort (fun left right => left.1 ≤ right.1) = sorted := by
  have climbs : Ascending (ranked.mergeSort fun left right => left.1 ≤ right.1) := by
    apply List.Pairwise.imp of_decide_eq_true
    exact List.pairwise_mergeSort (by simp; omega) (by simp; omega) ranked
  exact climbs.eq_of_alike rises fun rank => (filter_mergeSort ranked rank).trans (alike rank)

/-! ## Ranks -/

private theorem map_snd_rankParameters (late : Bool) (parameters : List Parameter) :
    (rankParameters late parameters).map (·.2) = parameters := by
  induction parameters generalizing late with
  | nil => rfl
  | cons parameter rest ih => simp [rankParameters, ih]

/-- Whether required parameters behind this one keep their places there. -/
def delays (parameter : Parameter) : Bool := parameter.kind = .optional || parameter.kind = .rest

private theorem rankParameters_append (late : Bool) (first second : List Parameter) :
    rankParameters late (first ++ second) =
      rankParameters late first ++ rankParameters (late || first.any delays) second := by
  induction first generalizing late with
  | nil => simp [rankParameters]
  | cons parameter rest ih => simp [rankParameters, ih, delays, Bool.or_assoc]

/-- Parameters that are not required have the ranks of their kinds. -/
theorem rankParameters_of_other {parameters : List Parameter}
    (other : ∀ parameter ∈ parameters, parameter.kind ≠ .required) (late : Bool) :
    rankParameters late parameters = parameters.map fun parameter => (parameterRank parameter.kind, parameter) := by
  induction parameters generalizing late with
  | nil => rfl
  | cons parameter rest ih =>
    have here := other parameter List.mem_cons_self
    simp [rankParameters, here, ih fun later member => other later (List.mem_cons_of_mem _ member)]

/-- Required parameters all have one rank. -/
theorem rankParameters_of_required {parameters : List Parameter}
    (required : ∀ parameter ∈ parameters, parameter.kind = .required) (late : Bool) :
    rankParameters late parameters = parameters.map fun parameter => (if late then 2 else 0, parameter) := by
  induction parameters with
  | nil => rfl
  | cons parameter rest ih =>
    have here := required parameter List.mem_cons_self
    simp [rankParameters, here, parameterRank,
      ih fun later member => required later (List.mem_cons_of_mem _ member)]

private theorem orderParameters_perm (parameters : List Parameter) :
    (orderParameters parameters).Perm parameters := by
  have sorted := (List.mergeSort_perm (rankParameters false parameters) fun left right => left.1 ≤ right.1).map
    (·.2)
  rwa [map_snd_rankParameters] at sorted

/-- Ranks that never fall and stay within bounds. -/
structure Climbs (low high : Nat) (ranked : List (Nat × Parameter)) : Prop where
  ascending : Ascending ranked
  low_le : ∀ entry ∈ ranked, low ≤ entry.1
  le_high : ∀ entry ∈ ranked, entry.1 ≤ high

private theorem Climbs.append {low middle next high : Nat} {first second : List (Nat × Parameter)}
    (climbs : Climbs low middle first) (continues : Climbs next high second) (begins : low ≤ next)
    (steps : middle ≤ next) (ends : middle ≤ high) : Climbs low high (first ++ second) where
  ascending := List.pairwise_append.mpr ⟨climbs.ascending, continues.ascending, fun left here right there =>
    Nat.le_trans (climbs.le_high left here) (Nat.le_trans steps (continues.low_le right there))⟩
  low_le entry member := by
    rcases List.mem_append.mp member with here | there
    · exact climbs.low_le entry here
    · exact Nat.le_trans begins (continues.low_le entry there)
  le_high entry member := by
    rcases List.mem_append.mp member with here | there
    · exact Nat.le_trans (climbs.le_high entry here) ends
    · exact continues.le_high entry there

private theorem Climbs.mono {low middle high : Nat} {ranked : List (Nat × Parameter)}
    (climbs : Climbs low middle ranked)
    (higher : middle ≤ high) : Climbs low high ranked :=
  { climbs with le_high := fun entry member => Nat.le_trans (climbs.le_high entry member) higher }

/-- Parameters of one rank. -/
theorem climbs_of_level {rank : Nat} {parameters : List Parameter} {rankOf : Parameter → Nat}
    (level : ∀ parameter ∈ parameters, rankOf parameter = rank) :
    Climbs rank rank (parameters.map fun parameter => (rankOf parameter, parameter)) where
  ascending := by
    apply List.pairwise_map.mpr
    apply List.pairwise_iff_forall_sublist.mpr
    intro left right pair
    exact Nat.le_of_eq ((level left (pair.subset (by simp))).trans (level right (pair.subset (by simp))).symm)
  low_le := List.forall_mem_map.mpr fun parameter member => Nat.le_of_eq (level parameter member).symm
  le_high := List.forall_mem_map.mpr fun parameter member => Nat.le_of_eq (level parameter member)

/-- Parameters of kinds of one rank; only required ones are of the lowest rank. -/
theorem climbs_of_rank {rank : Nat} {parameters : List Parameter}
    (level : ∀ parameter ∈ parameters, parameterRank parameter.kind = rank) (high : 0 < rank) (late : Bool) :
    Climbs rank rank (rankParameters late parameters) := by
  have other : ∀ parameter ∈ parameters, parameter.kind ≠ .required := by
    intro parameter member required
    have same := level parameter member
    rw [required] at same
    exact Nat.ne_of_lt high same
  rw [rankParameters_of_other other]
  exact climbs_of_level level

private theorem climbs_of_required {parameters : List Parameter}
    (required : ∀ parameter ∈ parameters, parameter.kind = .required) (late : Bool) :
    Climbs (if late then 2 else 0) (if late then 2 else 0) (rankParameters late parameters) := by
  rw [rankParameters_of_required required]
  exact climbs_of_level fun _ _ => rfl

namespace Signature

variable (signature : Signature)

/-- The ranks of the parameters before the keywords never fall: behind an optional or a rest parameter a required
one has the rank of a rest parameter. -/
theorem climbs_positional : Climbs 0 2 (rankParameters false signature.positional) := by
  have leading := climbs_of_required signature.leading_kind false
  by_cases early : signature.optional = [] ∧ signature.rest = none
  · have trailing := climbs_of_required signature.trailing_kind false
    have undelayed : signature.leading.any delays = false := by
      apply List.any_eq_false.mpr
      intro parameter member
      simp [delays, signature.leading_kind parameter member]
    simp only [positional, early, List.append_nil, Option.toList_none, rankParameters_append, undelayed,
      Bool.or_self]
    exact (leading.append trailing (by decide) (by decide) (by decide)).mono (by decide)
  · have delayed : (signature.leading ++ signature.optional ++ signature.rest.toList).any delays = true := by
      apply List.any_eq_true.mpr
      cases optional : signature.optional with
      | cons parameter others =>
        refine ⟨parameter, by simp, ?_⟩
        simp [delays, signature.optional_kind parameter (by simp [optional])]
      | nil =>
        obtain ⟨parameter, rest⟩ := Option.ne_none_iff_exists'.mp fun absent => early ⟨optional, absent⟩
        exact ⟨parameter, by simp [rest], by simp [delays, signature.rest_kind parameter rest]⟩
    have optional (late : Bool) : Climbs 1 1 (rankParameters late signature.optional) :=
      climbs_of_rank (fun parameter member => by rw [signature.optional_kind parameter member]; rfl) (by decide) late
    have rest (late : Bool) : Climbs 2 2 (rankParameters late signature.rest.toList) :=
      climbs_of_rank (fun parameter member => by
        rw [signature.rest_kind parameter (Option.mem_toList.mp member)]; rfl) (by decide) late
    have trailing := climbs_of_required signature.trailing_kind true
    rw [positional, rankParameters_append, delayed, rankParameters_append, rankParameters_append]
    exact ((leading.append (optional _) (by decide) (by decide) (by decide)).append (rest _) (by decide) (by decide)
      (by decide)).append trailing (by decide) (by decide) (by decide)

private theorem kind_of_mem_keywordsOf {kind : Parameter.Kind} {parameter : Parameter}
    (member : parameter ∈ signature.keywordsOf kind) : parameter.kind = kind := by
  simpa using (List.mem_filter.mp member).2

private theorem keywords_other : ∀ parameter ∈ signature.keywords, parameter.kind ≠ .required := by
  intro parameter member
  rcases signature.keywords_kind parameter member with kind | kind <;> simp [kind]

private theorem closing_other : ∀ parameter ∈ signature.closing, parameter.kind ≠ .required := by
  intro parameter member
  rcases List.mem_append.mp member with here | here
  · simp [signature.keywordRest_kind parameter (Option.mem_toList.mp here)]
  · rcases signature.last_kind parameter (Option.mem_toList.mp here) with kind | kind <;> simp [kind]

private theorem climbs_sortedKeywords (late : Bool) :
    Climbs 3 4 (rankParameters late signature.sortedKeywords) := by
  rw [sortedKeywords, rankParameters_append]
  have level (kind : Parameter.Kind) (high : 0 < parameterRank kind) (late : Bool) :
      Climbs (parameterRank kind) (parameterRank kind) (rankParameters late (signature.keywordsOf kind)) :=
    climbs_of_rank (fun parameter member => by rw [signature.kind_of_mem_keywordsOf member]) high late
  exact (level .requiredKeyword (by decide) _).append (level .optionalKeyword (by decide) _) (by decide) (by decide)
    (by decide)

private theorem climbs_closing (late : Bool) : Climbs 5 6 (rankParameters late signature.closing) := by
  have keywordRest : Climbs 5 5 (rankParameters late signature.keywordRest.toList) :=
    climbs_of_rank (fun parameter member => by
      rw [signature.keywordRest_kind parameter (Option.mem_toList.mp member)]; rfl) (by decide) late
  have last (late : Bool) : Climbs 6 6 (rankParameters late signature.last.toList) := by
    refine climbs_of_rank (fun parameter member => ?_) (by decide) late
    rcases signature.last_kind parameter (Option.mem_toList.mp member) with kind | kind <;> rw [kind] <;> rfl
  rw [closing, rankParameters_append]
  exact keywordRest.append (last _) (by decide) (by decide) (by decide)

/-- Keywords of a rank are in the same order before and after. -/
theorem filter_keywords (late : Bool) (rank : Nat) :
    (rankParameters late signature.keywords).filter (·.1 == rank) =
      (rankParameters late signature.sortedKeywords).filter (·.1 == rank) := by
  have other : ∀ parameter ∈ signature.sortedKeywords, parameter.kind ≠ .required := by
    intro parameter member
    rcases List.mem_append.mp member with here | here <;> simp [signature.kind_of_mem_keywordsOf here]
  rw [rankParameters_of_other signature.keywords_other, rankParameters_of_other other, List.filter_map,
    List.filter_map]
  congr 1
  simp only [sortedKeywords, keywordsOf, List.filter_append, List.filter_filter, Function.comp_def]
  by_cases behind : rank = 4
  · have empty : signature.keywords.filter
        (fun parameter => parameterRank parameter.kind == rank && parameter.kind == .requiredKeyword) = [] := by
      refine List.filter_eq_nil_iff.mpr fun parameter _ => ?_
      cases parameter.kind <;> simp [parameterRank, behind]
    rw [empty, List.nil_append]
    apply List.filter_congr
    intro parameter member
    rcases signature.keywords_kind parameter member with kind | kind <;> simp [kind, parameterRank, behind]
  · have empty : signature.keywords.filter
        (fun parameter => parameterRank parameter.kind == rank && parameter.kind == .optionalKeyword) = [] := by
      refine List.filter_eq_nil_iff.mpr fun parameter _ => ?_
      cases parameter.kind <;> simp [parameterRank, Ne.symm behind]
    rw [empty, List.append_nil]
    apply List.filter_congr
    intro parameter member
    rcases signature.keywords_kind parameter member with kind | kind <;>
      simp [kind, parameterRank, Ne.symm behind]

/-- What is declared in Ruby's order stays in it, but that required keywords go before optional ones. -/
theorem orderParameters_declared : orderParameters signature.declared = signature.listed := by
  have sorted : (rankParameters false signature.declared).mergeSort (fun left right => left.1 ≤ right.1) =
      rankParameters false signature.listed := by
    apply mergeSort_eq_of_alike
    · simp only [listed, rankParameters_append]
      exact ((signature.climbs_positional.append (signature.climbs_sortedKeywords _) (by decide) (by decide)
        (by decide)).append (signature.climbs_closing _) (by decide) (by decide) (by decide)).ascending
    · intro rank
      simp only [declared, listed, rankParameters_append, List.filter_append,
        rankParameters_of_other signature.closing_other]
      congr 2
      exact signature.filter_keywords _ rank
  rw [orderParameters, sorted, map_snd_rankParameters]

end Signature

/-! ## Trees of parameters -/

def declaredKind (tree : Tree) : Parameter.Kind :=
  match tree.kind, tree.child? "value" with
  | "optional_parameter", _ => .optional
  | "splat_parameter", _ => .rest
  | "hash_splat_parameter", _ | "hash_splat_nil", _ => .keywordRest
  | "block_parameter", _ => .block
  | "keyword_parameter", some _ => .optionalKeyword
  | "keyword_parameter", none => .requiredKeyword
  | "forward_parameter", _ => .forward
  | _, _ => .required

private theorem kind_of_parameterOf {scene : Scene} {tree : Tree} {parameter : Parameter}
    (success : (parameterOf scene tree).result = .ok parameter) : parameter.kind = declaredKind tree := by
  have made {kind : Parameter.Kind} {name : String} {default : Option String}
      (success : (Outcome.ofExcept ((Parameter.ofParts kind name default).mapError WalkFault.parameter)).result =
        .ok parameter) : parameter.kind = kind :=
    (Parameter.parts_of_ofParts (Except.mapError_eq_ok_iff.mp success)).1
  have read {text : Walking String} {kind : Parameter.Kind} {name : String → String}
      {default : String → Option String} (success : (text >>= fun text => Outcome.ofExcept
        ((Parameter.ofParts kind (name text) (default text)).mapError WalkFault.parameter)).result =
          .ok parameter) : parameter.kind = kind := by
    obtain ⟨_, _, success⟩ := Outcome.bind_result_eq_ok_iff.mp success
    exact made success
  unfold parameterOf at success
  extract_lets value make declare at success
  have declared (name : String) (success : (declare name).result = .ok parameter) :
      parameter.kind = declaredKind tree := by
    simp only [declare, make] at success
    simp only [declaredKind]
    split at success <;> first | rw [made success] | rw [read success]
    all_goals simp_all [value]
  split at success
  · obtain ⟨name, _, success⟩ := Outcome.bind_result_eq_ok_iff.mp success
    exact declared name success
  · exact declared "" success

def parameterTrees (list : Tree) : List Tree := list.namedChildren.filter (!·.isComment)

private theorem result_parametersOf (scene : Scene) (list : Tree) :
    (parametersOf scene (some list)).result =
      ((parameterTrees list).mapM fun tree => (parameterOf scene tree).result).map orderParameters := by
  simp only [parametersOf, Outcome.result_bind, Outcome.result_mapM, Outcome.result_pure]
  rw [← parameterTrees]
  cases (parameterTrees list).mapM fun tree => (parameterOf scene tree).result <;> rfl

/-- A list gives parameters if each of its trees declares one, and then it gives these parameters in some order.
What order they stand in depends on the kinds of the trees: those in Ruby's order stay in it, but that required
keywords go before optional ones. -/
theorem parametersOf_declared (scene : Scene) (list : Tree) :
    ((∃ listed, (parametersOf scene (some list)).result = .ok listed) ↔
      ∀ tree ∈ parameterTrees list, ∃ parameter, (parameterOf scene tree).result = .ok parameter) ∧
    ∀ declared, List.Forall₂ (fun tree parameter => (parameterOf scene tree).result = .ok parameter)
        (parameterTrees list) declared →
      declared.map Parameter.kind = (parameterTrees list).map declaredKind ∧
        (∃ listed, (parametersOf scene (some list)).result = .ok listed ∧ listed.Perm declared) ∧
        ∀ signature : Signature, signature.declared = declared →
          (parametersOf scene (some list)).result = .ok signature.listed := by
  rw [result_parametersOf]
  constructor
  · constructor
    · rintro ⟨listed, success⟩ tree member
      cases each : (parameterTrees list).mapM fun tree => (parameterOf scene tree).result with
      | ok declared =>
        have declares := Except.exists_of_mapM each member
        exact declares
      | error fault =>
        rw [each] at success
        cases success
    · intro each
      obtain ⟨declared, success⟩ := Except.exists_mapM each
      exact ⟨orderParameters declared, by rw [success]; rfl⟩
  · intro declared each
    rw [Except.mapM_eq_ok_iff.mpr each]
    refine ⟨?_, ⟨_, rfl, orderParameters_perm declared⟩, ?_⟩
    · rw [← List.forall₂_eq_eq_eq, List.forall₂_map_left_iff, List.forall₂_map_right_iff]
      exact each.flip.imp fun _ _ => kind_of_parameterOf
    · rintro signature rfl
      rw [← signature.orderParameters_declared]
      rfl

/-- The tree of `(a, d = 1, *r, e, k: 2, l:, **nil, &f)`. -/
def mixedParameters : Tree :=
  let part (field : String) (start stop : Nat) : Tree :=
    .node { kind := "identifier", start, stop, field := some field } []
  let item (kind : String) (start stop : Nat) (parts : List Tree) : Tree := .node { kind, start, stop } parts
  .node { kind := "method_parameters", start := 0, stop := 38 }
    [.node { kind := "(", start := 0, stop := 1, named := false } [],
    item "identifier" 1 2 [],
    item "optional_parameter" 4 9 [part "name" 4 5, part "value" 8 9],
    item "splat_parameter" 11 13 [part "name" 12 13],
    item "identifier" 15 16 [],
    item "keyword_parameter" 18 22 [part "name" 18 19, part "value" 21 22],
    item "keyword_parameter" 24 26 [part "name" 24 25],
    item "hash_splat_nil" 28 33 [],
    item "block_parameter" 35 37 [part "name" 36 37]]

/-- The required parameter behind the rest stays there, and the keywords change places. -/
theorem parametersOf_declared_of_mixed :
    (parametersOf ⟨Source.ofText "(a, d = 1, *r, e, k: 2, l:, **nil, &f)", mixedParameters⟩
      (some mixedParameters)).result = .ok [.required "a", .optional "d" "1", .rest "r", .required "e",
        .requiredKeyword "l", .optionalKeyword "k" "2", .keywordRest "nil", .block "f"] := by
  let signature : Signature :=
    { leading := [.required "a"]
      optional := [.optional "d" "1"]
      rest := some (.rest "r")
      trailing := [.required "e"]
      keywords := [.optionalKeyword "k" "2", .requiredKeyword "l"]
      keywordRest := some (.keywordRest "nil")
      last := some (.block "f")
      leading_kind := by decide
      optional_kind := by decide
      rest_kind := by decide
      trailing_kind := by decide
      keywords_kind := by decide
      keywordRest_kind := by decide
      last_kind := by decide }
  have each : List.Forall₂ (fun tree parameter => (parameterOf ⟨Source.ofText
      "(a, d = 1, *r, e, k: 2, l:, **nil, &f)", mixedParameters⟩ tree).result = .ok parameter)
      (parameterTrees mixedParameters) signature.declared := Except.mapM_eq_ok_iff.mp (by decide +kernel)
  exact ((parametersOf_declared _ _).2 _ each).2.2 signature rfl

end LiterateRuby.Ruby
