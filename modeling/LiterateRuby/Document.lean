import LiterateRuby.RubyUnit

/-! # Documents

A document is what one text defines: units in the order in which they first appear, required
libraries, front matter and the name of the file it came from.
-/

namespace LiterateRuby

/-- The classes and modules of one text. -/
structure Document where
  units : List RubyUnit
  requires : List String
  metadata : Metadata
  filename : Option String

namespace Document

def empty : Document := ⟨[], [], [], none⟩

/-- The rules that a document can break. -/
inductive Flaw where
  | repeatedUnit (name : String)
  | repeatedRequire
  deriving DecidableEq, Repr

def Flaw.message : Flaw → String
  | .repeatedUnit name => "unit '" ++ name ++ "' defined more than once"
  | .repeatedRequire => "requires must not contain duplicates"

def firstRepeated? : List String → List String → Option String
  | _, [] => none
  | seen, item :: rest =>
    if seen.contains item then some item else firstRepeated? (item :: seen) rest

def flaw? (document : Document) : Option Flaw :=
  match firstRepeated? [] (document.units.map (·.qualifiedName)) with
  | some name => some (.repeatedUnit name)
  | none =>
    if (firstRepeated? [] document.requires).isSome then some .repeatedRequire else none

def checked (document : Document) : Except Flaw Document :=
  match document.flaw? with
  | some flaw => .error flaw
  | none => .ok document

def unitsOf (document : Document) (kind : RubyUnit.Kind) : List RubyUnit :=
  document.units.filter (·.kind == kind)

def namesOf (document : Document) (kind : RubyUnit.Kind) : List String :=
  (document.unitsOf kind).map (·.qualifiedName)

def unit? (document : Document) (name : String) : Option RubyUnit :=
  document.units.find? (·.qualifiedName == name)

/-- Whether a document defines or requires anything. -/
def hasContent (document : Document) : Bool :=
  !document.units.isEmpty || !document.requires.isEmpty

theorem firstRepeated?_eq_none_iff {seen items : List String} :
    firstRepeated? seen items = none ↔ items.Nodup ∧ ∀ item ∈ items, item ∉ seen := by
  induction items generalizing seen with
  | nil => simp [firstRepeated?]
  | cons item rest ih =>
    simp only [firstRepeated?, List.contains_iff_mem]
    split
    · next member =>
      simp only [reduceCtorEq, List.nodup_cons, List.mem_cons, forall_eq_or_imp, false_iff]
      intro both
      exact both.2.1 member
    · next absent =>
      rw [ih]
      simp only [List.nodup_cons, List.mem_cons, forall_eq_or_imp, not_or]
      constructor
      · rintro ⟨distinct, apart⟩
        exact ⟨⟨fun member => (apart item member).1 rfl, distinct⟩, absent,
          fun other member => (apart other member).2⟩
      · rintro ⟨⟨fresh, distinct⟩, _, apart⟩
        exact ⟨distinct, fun other member =>
          ⟨fun same => fresh (same ▸ member), apart other member⟩⟩

end Document

end LiterateRuby
