import LiterateRuby.Draft
import Mathlib.Data.List.Induction
import Mathlib.Data.List.Nodup

/-! # Names in the order in which they are first seen

Lists that keep each name once grow at their end. What such a list holds after any number of names is
`Text.distinct` of the names in the order in which they came.
-/

namespace LiterateRuby

namespace Text

variable {α : Type} [BEq α] [LawfulBEq α]

omit [LawfulBEq α] in
@[simp] theorem distinct_nil : distinct ([] : List α) = [] := rfl

omit [LawfulBEq α] in
theorem distinct_concat (items : List α) (item : α) :
    distinct (items ++ [item]) =
      if (distinct items).contains item then distinct items else distinct items ++ [item] := by
  rw [distinct, List.foldl_append]
  rfl

theorem mem_distinct {items : List α} {item : α} : item ∈ distinct items ↔ item ∈ items := by
  induction items using List.reverseRecOn with
  | nil => simp
  | append_singleton items last ih =>
    rw [distinct_concat, List.mem_append, List.mem_singleton]
    split
    · next seen =>
      rw [ih]
      constructor
      · exact Or.inl
      · rintro (member | rfl)
        · exact member
        · exact ih.mp (List.contains_iff_mem.mp seen)
    · rw [List.mem_append, List.mem_singleton, ih]

theorem nodup_distinct (items : List α) : (distinct items).Nodup := by
  induction items using List.reverseRecOn with
  | nil => exact List.nodup_nil
  | append_singleton items last ih =>
    rw [distinct_concat]
    split
    · exact ih
    · next fresh =>
      refine List.nodup_append.mpr ⟨ih, List.pairwise_singleton _ last, ?_⟩
      rintro other member _ single rfl
      exact fresh (List.contains_iff_mem.mpr (List.mem_singleton.mp single ▸ member))

/-- Names without repetition are seen as they are. -/
theorem distinct_of_nodup {items : List α} (once : items.Nodup) : distinct items = items := by
  induction items using List.reverseRecOn with
  | nil => rfl
  | append_singleton items last ih =>
    obtain ⟨before, _, apart⟩ := List.nodup_append.mp once
    rw [distinct_concat, ih before, if_neg]
    intro seen
    exact apart last (List.contains_iff_mem.mp seen) last (List.mem_singleton_self last) rfl

/-- Names that no earlier name repeats are seen for the first time as they are on their own. -/
theorem distinct_append_of_apart {first second : List α} (apart : ∀ item ∈ first, item ∉ second) :
    distinct (first ++ second) = distinct first ++ distinct second := by
  induction second using List.reverseRecOn with
  | nil => simp
  | append_singleton items last ih =>
    have before := ih fun item member inside => apart item member (List.mem_append_left _ inside)
    have fresh : (distinct first ++ distinct items).contains last = (distinct items).contains last := by
      rw [Bool.eq_iff_iff, List.contains_iff_mem, List.contains_iff_mem, List.mem_append, or_iff_right]
      exact fun old => apart last (mem_distinct.mp old) (by simp)
    rw [← List.append_assoc, distinct_concat, distinct_concat, before, fresh]
    split
    · rfl
    · rw [List.append_assoc]

/-- What is told apart is seen for the first time alike. -/
theorem distinct_map {β : Type} [BEq β] [LawfulBEq β] {change : α → β} {items : List α}
    (apart : ∀ first ∈ items, ∀ second ∈ items, change first = change second → first = second) :
    distinct (items.map change) = (distinct items).map change := by
  induction items using List.reverseRecOn with
  | nil => rfl
  | append_singleton items last ih =>
    have before := ih fun first member second other =>
      apart first (List.mem_append_left _ member) second (List.mem_append_left _ other)
    have seen : ((distinct items).map change).contains (change last) = (distinct items).contains last := by
      rw [Bool.eq_iff_iff, List.contains_iff_mem, List.contains_iff_mem, List.mem_map]
      constructor
      · rintro ⟨other, member, same⟩
        have old := mem_distinct.mp member
        rwa [← apart other (List.mem_append_left _ old) last (by simp) same]
      · exact fun member => ⟨last, member, rfl⟩
    rw [List.map_append, List.map_singleton, distinct_concat, distinct_concat, before, seen]
    split
    · rfl
    · rw [List.map_append, List.map_singleton]

end Text

namespace Draft

theorem appendOnce_distinct (items : List String) (item : String) :
    appendOnce (Text.distinct items) item = Text.distinct (items ++ [item]) :=
  (Text.distinct_concat items item).symm

theorem appendNew_distinct (items new : List String) :
    appendNew (Text.distinct items) new = Text.distinct (items ++ new.filter (· != "")) := by
  induction new generalizing items with
  | nil => simp [appendNew]
  | cons item rest ih =>
    by_cases given : item = ""
    · rw [List.filter_cons_of_neg (by simp [given])]
      simpa [appendNew, given] using ih items
    · have step : appendNew (Text.distinct items) (item :: rest) =
          appendNew (Text.distinct (items ++ [item])) rest := by
        simp [appendNew, given, Text.distinct_concat]
      rw [step, ih, List.filter_cons_of_pos (by simp [given]), List.append_assoc, List.singleton_append]

end Draft

end LiterateRuby
