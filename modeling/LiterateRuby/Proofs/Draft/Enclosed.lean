import LiterateRuby.Proofs.Draft.Run

/-! # Units that stand after the units around them

Calls nest if every unit that they open for the first time is opened in a scope whose units are open
already. A draft that is run through such calls is enclosed (`Runs.enclosed`): each of its units comes after
all units that it is nested in. So does each unit of the document that the draft freezes to.
-/

namespace LiterateRuby

/-- Every unit of a document stands after the units around it: what its path starts with, short of the
whole path, names a unit before it. -/
def Document.NamespaceClosed (document : Document) : Prop :=
  ∀ before unit after, document.units = before ++ unit :: after →
    ∀ outer inner, unit.path = outer ++ inner → outer ≠ [] → inner ≠ [] →
      Text.joinScope outer ∈ before.map (·.qualifiedName)

namespace Draft

def Call.scope? : Call → Option (List String)
  | .addUnit _ _ scope => some scope
  | .ensureHolder _ scope => some scope
  | _ => none

/-- The units along a scope are all known. -/
def Covers (known scope : List String) : Prop :=
  ∀ outer, outer <+: scope → outer ≠ [] → Text.joinScope outer ∈ known

theorem covers_nil (known : List String) : Covers known [] := by
  intro outer starts given
  exact absurd (List.prefix_nil.mp starts) given

theorem Covers.mono {known more scope : List String} (covers : Covers known scope)
    (kept : known ⊆ more) : Covers more scope :=
  fun outer starts given => kept (covers outer starts given)

/-- A scope is left by one unit only: the last one. -/
theorem Covers.concat {known scope : List String} {name : String} (covers : Covers known scope)
    (opened : keyOf name scope ∈ known) : Covers known (scope ++ [name]) := by
  intro outer starts given
  rcases List.prefix_concat_iff.mp starts with whole | within
  · rw [whole]
    exact opened
  · exact covers outer within given

/-- Every unit that calls open for the first time is opened in a scope that is known or opened before. -/
def Nests (known : List String) : List Call → Prop
  | [] => True
  | call :: rest =>
    (∀ key scope, call.opened? = some key → call.scope? = some scope → key ∈ known ∨ Covers known scope) ∧
      Nests (known ++ call.opened?.toList) rest

theorem nests_append {known : List String} {first second : List Call} :
    Nests known (first ++ second) ↔
      Nests known first ∧ Nests (known ++ first.filterMap Call.opened?) second := by
  induction first generalizing known with
  | nil => simp [Nests]
  | cons call rest ih =>
    have opened : (call :: rest).filterMap Call.opened? =
        call.opened?.toList ++ rest.filterMap Call.opened? := by
      cases opens : call.opened? <;> simp [opens]
    rw [List.cons_append, Nests, Nests, ih, opened, List.append_assoc, and_assoc]

theorem Call.unit?_of_opened? {call : Call} {key : String} (opened : call.opened? = some key) :
    call.unit? = some key := by
  cases call <;> first | exact opened | cases opened

/-- Calls to units that are known open no new ones. -/
theorem nests_of_known {known : List String} {calls : List Call}
    (addressed : ∀ call ∈ calls, ∀ key, call.unit? = some key → key ∈ known) : Nests known calls := by
  induction calls generalizing known with
  | nil => trivial
  | cons call rest ih =>
    refine ⟨fun key scope opened _ => .inl ?_, ih fun other member key target => ?_⟩
    · exact addressed call List.mem_cons_self key (Call.unit?_of_opened? opened)
    · exact List.mem_append_left _ (addressed other (List.mem_cons_of_mem _ member) key target)

/-! ## Drafts -/

/-- Every unit of a draft is kept once, under its own name, after the units of its scope. -/
structure Enclosed (draft : Draft) : Prop where
  distinct : draft.units.keys.Nodup
  placed : ∀ before key after, draft.units.keys = before ++ key :: after →
    ∃ unit, draft.units.get? key = some unit ∧ keyOf unit.name unit.scope = key ∧ Covers before unit.scope

theorem enclosed_empty (filename : Option String) : (empty filename).Enclosed where
  distinct := List.nodup_nil
  placed := by simp [empty]

/-- A unit keeps the name and the scope that it was opened with. -/
theorem Call.update?_place {call : Call} {unit next : UnitDraft} (updated : call.update? unit = some next) :
    next.name = unit.name ∧ next.scope = unit.scope := by
  cases Call.updates_of_update? updated <;> exact ⟨rfl, rfl⟩

theorem Call.fresh?_place {call : Call} {unit : UnitDraft} (fresh : call.fresh? = some unit) :
    call.opened? = some (keyOf unit.name unit.scope) ∧ call.scope? = some unit.scope := by
  cases Call.opens_of_fresh? fresh <;> exact ⟨rfl, rfl⟩

/-- A unit that is touched keeps its place, or it is new and comes last. -/
theorem Enclosed.touched {draft next : Draft} {call : Call} {key : String} {unit : UnitDraft}
    (enclosed : draft.Enclosed)
    (nests : ∀ key scope, call.opened? = some key → call.scope? = some scope →
      key ∈ draft.units.keys ∨ Covers draft.units.keys scope)
    (addressed : call.unit? = some key) (effect : call.effect? (draft.units.get? key) = some unit)
    (touched : Touched key unit draft next) : next.Enclosed := by
  cases present : draft.units.get? key with
  | some held =>
    rw [present] at effect
    have keys : next.units.keys = draft.units.keys := by
      rw [touched.keys, if_pos (Entries.mem_keys_of_get? present)]
    refine ⟨keys ▸ enclosed.distinct, fun before asked after split => ?_⟩
    obtain ⟨other, found, keyed, covers⟩ := enclosed.placed before asked after (keys ▸ split)
    by_cases same : asked = key
    · subst same
      cases present.symm.trans found
      obtain ⟨named, within⟩ := Call.update?_place effect
      exact ⟨unit, touched.get?_self, by rw [named, within, keyed], within ▸ covers⟩
    · exact ⟨other, (touched.get?_of_ne same).trans found, keyed, covers⟩
  | none =>
    rw [present] at effect
    have fresh := Entries.get?_eq_none_iff.mp present
    have keys : next.units.keys = draft.units.keys ++ [key] := by rw [touched.keys, if_neg fresh]
    obtain ⟨opened, within⟩ := Call.fresh?_place effect
    have keyed : keyOf unit.name unit.scope = key :=
      Option.some.inj ((Call.unit?_of_opened? opened).symm.trans addressed)
    rw [keyed] at opened
    refine ⟨?_, fun before asked after split => ?_⟩
    · exact touched.distinct enclosed.distinct
    · rw [keys] at split
      rcases List.eq_nil_or_concat' after with rfl | ⟨rest, last, rfl⟩
      · obtain ⟨rfl, single⟩ := List.append_inj' split rfl
        cases single
        exact ⟨unit, touched.get?_self, keyed, (nests key unit.scope opened within).resolve_left fresh⟩
      · rw [← List.cons_append, ← List.append_assoc] at split
        obtain ⟨old, _⟩ := List.append_inj' split rfl
        have different : asked ≠ key := by
          rintro rfl
          exact fresh (old ▸ by simp)
        obtain ⟨other, found, keyed, covers⟩ := enclosed.placed before asked rest old
        exact ⟨other, (touched.get?_of_ne different).trans found, keyed, covers⟩

/-- Calls that nest keep a draft enclosed. -/
theorem Runs.enclosed {draft next : Draft} {calls : List Call} {known : List String}
    (run : draft.Runs calls next) (enclosed : draft.Enclosed) (kept : known ⊆ draft.units.keys)
    (nests : Nests known calls) : next.Enclosed := by
  induction calls generalizing draft known with
  | nil =>
    cases run
    exact enclosed
  | cons call rest ih =>
    obtain ⟨middle, reply, success, tail⟩ := run
    cases addressed : call.unit? with
    | none =>
      obtain ⟨units, _⟩ := perform_document addressed success
      rw [Nests, Call.opened?_of_document addressed] at nests
      refine ih tail ⟨units ▸ enclosed.distinct, units ▸ enclosed.placed⟩ (units ▸ ?_) nests.2
      simpa using kept
    | some key =>
      obtain ⟨unit, effect, touched⟩ := perform_unit addressed success
      have opens : ∀ key scope, call.opened? = some key → call.scope? = some scope →
          key ∈ draft.units.keys ∨ Covers draft.units.keys scope := fun key scope opened within =>
        (nests.1 key scope opened within).imp (kept ·) (·.mono kept)
      refine ih tail (enclosed.touched opens addressed effect touched) ?_ nests.2
      have grown : draft.units.keys ⊆ middle.units.keys := by
        rw [touched.keys]
        split
        · exact List.Subset.refl _
        · exact List.subset_append_left _ _
      refine List.append_subset.mpr ⟨List.Subset.trans kept grown, fun other member => ?_⟩
      have target := Call.unit?_of_opened? (Option.mem_toList.mp member)
      obtain rfl : key = other := Option.some.inj (addressed.symm.trans target)
      exact Entries.mem_keys_of_get? touched.get?_self

/-! ## Documents -/

theorem Enclosed.keyed {draft : Draft} (enclosed : draft.Enclosed) : draft.Keyed where
  distinct := enclosed.distinct
  named key unit found := by
    obtain ⟨before, after, split⟩ := List.append_of_mem (Entries.mem_keys_of_get? found)
    obtain ⟨held, again, named, _⟩ := enclosed.placed before key after split
    cases found.symm.trans again
    exact named

theorem Enclosed.document_closed {draft : Draft} (enclosed : draft.Enclosed) :
    draft.document.NamespaceClosed := by
  intro before unit after split outer inner path given rest
  obtain ⟨early, later, units, rfl, tail⟩ := List.map_eq_append_iff.mp split
  obtain ⟨entry, late, rfl, rfl, rfl⟩ := List.map_eq_cons_iff.mp tail
  have found : draft.units.get? entry.1 = .some entry.2 :=
    Entries.get?_of_mem enclosed.distinct (units ▸ by simp)
  obtain ⟨held, again, _, covers⟩ := enclosed.placed (Entries.keys early) entry.1 (Entries.keys late) (by
    rw [units]
    simp [Entries.keys])
  cases found.symm.trans again
  rw [enclosed.keyed.names_eq (units ▸ List.subset_append_left _ _)]
  refine covers outer ?_ given
  -- the last segment of the path is not part of the scope
  rw [UnitDraft.frozen_path] at path
  have ends : outer ++ inner.dropLast = entry.2.scope := by
    rw [← List.dropLast_append_of_ne_nil rest, ← path, List.dropLast_concat]
  exact ⟨inner.dropLast, ends⟩

end Draft

end LiterateRuby
