import LiterateRuby.Entries
import Mathlib.Data.List.Nodup

/-! # Looking up what was written

Entries are known by their keys in order and by the value of each key. Writing and changing an entry
are described in these two views, so that nothing else needs to look at the list of pairs.
-/

namespace LiterateRuby.Entries

@[simp] theorem keys_nil : keys ([] : Entries α β) = [] := rfl

@[simp] theorem keys_cons (entry : α × β) (rest : Entries α β) :
    keys (entry :: rest) = entry.1 :: keys rest := rfl

@[simp] theorem get?_nil [BEq α] (key : α) : get? ([] : Entries α β) key = none := rfl

theorem get?_cons [BEq α] (other : α) (value : β) (rest : Entries α β) (key : α) :
    get? ((other, value) :: rest) key = if key == other then some value else get? rest key := by
  simp only [get?, List.lookup_cons]
  cases key == other <;> rfl

theorem put_cons [BEq α] (other : α) (held : β) (rest : Entries α β) (key : α) (value : β) :
    put ((other, held) :: rest) key value =
      if other == key then (other, value) :: rest else (other, held) :: put rest key value := rfl

variable [BEq α] [LawfulBEq α]

theorem get?_eq_none_iff {entries : Entries α β} {key : α} :
    get? entries key = none ↔ key ∉ keys entries := by
  simp only [get?, List.lookup_eq_none_iff, keys, List.mem_map, not_exists, not_and]
  constructor
  · intro absent entry member same
    simpa [same] using absent entry member
  · intro absent entry member
    simpa using Ne.symm (absent entry member)

theorem mem_keys_of_get? {entries : Entries α β} {key : α} {value : β}
    (found : get? entries key = some value) : key ∈ keys entries := by
  by_contra absent
  rw [get?_eq_none_iff.mpr absent] at found
  cases found

theorem has_eq_true_iff {entries : Entries α β} {key : α} :
    has entries key = true ↔ key ∈ keys entries := by
  simp only [has, Option.isSome_iff_ne_none, ne_eq]
  rw [← not_iff_not, not_not]
  exact get?_eq_none_iff

theorem mem_of_get? {entries : Entries α β} {key : α} {value : β}
    (found : get? entries key = some value) : (key, value) ∈ entries := by
  obtain ⟨before, after, rfl, _⟩ := List.lookup_eq_some_iff.mp found
  simp

/-- With distinct keys every entry is found under its key. -/
theorem get?_of_mem {entries : Entries α β} (distinct : (keys entries).Nodup) {key : α} {value : β}
    (member : (key, value) ∈ entries) : get? entries key = some value := by
  induction entries with
  | nil => cases member
  | cons entry rest ih =>
    obtain ⟨other, held⟩ := entry
    obtain ⟨fresh, distinct⟩ := List.nodup_cons.mp distinct
    rw [get?_cons]
    rcases List.mem_cons.mp member with same | later
    · cases same
      simp
    · have different : key ≠ other := by
        rintro rfl
        exact fresh (List.mem_map.mpr ⟨_, later, rfl⟩)
      rw [if_neg (by simpa using different)]
      exact ih distinct later

theorem get?_put (entries : Entries α β) (key : α) (value : β) (asked : α) :
    get? (put entries key value) asked = if asked == key then some value else get? entries asked := by
  induction entries with
  | nil => simp only [put, putBy, get?_cons]
  | cons entry rest ih =>
    obtain ⟨other, held⟩ := entry
    rw [put_cons]
    by_cases same : other = key
    · subst same
      simp only [beq_self_eq_true, ↓reduceIte, get?_cons]
      split <;> rfl
    · rw [if_neg (by simpa using same)]
      simp only [get?_cons, ih]
      by_cases asked_other : asked = other
      · subst asked_other
        simp [same]
      · simp [asked_other]

theorem get?_adjust (entries : Entries α β) (key : α) (change : β → β) (asked : α) :
    get? (adjust entries key change) asked =
      if asked == key then (get? entries asked).map change else get? entries asked := by
  induction entries with
  | nil => simp [adjust]
  | cons entry rest ih =>
    obtain ⟨other, held⟩ := entry
    have step : adjust ((other, held) :: rest) key change =
        (if other == key then (other, change held) else (other, held)) :: adjust rest key change := rfl
    rw [step]
    by_cases same : other = key
    · subst same
      simp only [beq_self_eq_true, ↓reduceIte, get?_cons, ih]
      split <;> rfl
    · rw [if_neg (by simpa using same)]
      simp only [get?_cons, ih]
      by_cases asked_other : asked = other
      · subst asked_other
        simp [same]
      · simp [asked_other]

omit [LawfulBEq α] in
theorem adjust_eq_self {entries : Entries α β} {key : α} {change : β → β}
    (idle : ∀ value, change value = value) : adjust entries key change = entries := by
  simp [adjust, idle]

/-- A new name is written last. -/
theorem put_of_fresh {entries : Entries α β} {key : α} (fresh : key ∉ keys entries) (value : β) :
    put entries key value = entries ++ [(key, value)] := by
  induction entries with
  | nil => rfl
  | cons entry rest ih =>
    obtain ⟨other, held⟩ := entry
    rw [keys_cons, List.mem_cons, not_or] at fresh
    rw [put_cons, if_neg (by simpa using Ne.symm fresh.1), ih fresh.2]
    rfl

private theorem foldl_put {entries pairs : Entries α β} (distinct : (keys entries ++ keys pairs).Nodup) :
    pairs.foldl (fun entries (key, value) => entries.put key value) entries = entries ++ pairs := by
  induction pairs generalizing entries with
  | nil => simp
  | cons pair rest ih =>
    obtain ⟨key, value⟩ := pair
    have fresh : key ∉ keys entries := by
      obtain ⟨_, _, apart⟩ := List.nodup_append.mp distinct
      exact fun member => apart key member key (by simp) rfl
    have moved : (keys (entries ++ [(key, value)]) ++ keys rest).Nodup := by
      simpa [keys] using distinct
    rw [List.foldl_cons]
    dsimp only
    rw [put_of_fresh fresh, ih moved, List.append_assoc, List.singleton_append]

/-- Pairs with names of their own are entries as they are. -/
theorem ofPairs_of_nodup {pairs : Entries α β} (distinct : (keys pairs).Nodup) : ofPairs pairs = pairs := by
  rw [ofPairs, foldl_put (by simpa using distinct), List.nil_append]

/-- Entries are known by their names in order and by the value of each name. -/
theorem eq_of_get? {first second : Entries α β} (distinct : (keys first).Nodup)
    (names : keys first = keys second) (alike : ∀ key, get? first key = get? second key) : first = second := by
  induction first generalizing second with
  | nil => exact (List.map_eq_nil_iff.mp names.symm).symm
  | cons entry rest ih =>
    obtain ⟨⟨key, value⟩, more, rfl, same, later⟩ := List.map_eq_cons_iff.mp names.symm
    obtain ⟨name, held⟩ := entry
    obtain rfl : key = name := same
    obtain ⟨fresh, distinct⟩ := List.nodup_cons.mp distinct
    have first : held = value := by simpa [get?_cons] using alike key
    rw [first, ih distinct later.symm fun asked => ?_]
    by_cases here : asked = key
    · subst here
      have absent : asked ∉ keys more := by
        rw [keys, later]
        exact fresh
      rw [get?_eq_none_iff.mpr fresh, get?_eq_none_iff.mpr absent]
    · simpa [get?_cons, here] using alike asked

/-- With distinct keys, a key and what is seen of a value stand together if the value is found under the key. -/
theorem mem_map_view {γ : Type*} {entries : Entries α β} (distinct : (keys entries).Nodup) {view : β → γ}
    {key : α} {seen : γ} :
    (key, seen) ∈ entries.map (fun entry => (entry.1, view entry.2)) ↔
      (get? entries key).map view = some seen := by
  rw [Option.map_eq_some_iff, List.mem_map]
  constructor
  · rintro ⟨⟨_, value⟩, member, ⟨⟩⟩
    exact ⟨value, get?_of_mem distinct member, rfl⟩
  · rintro ⟨value, found, rfl⟩
    exact ⟨(key, value), mem_of_get? found, rfl⟩

/-- Entries that look the same under every name are the same to look at up to their order. -/
theorem perm_map_view {γ : Type*} {first second : Entries α β} (distinct : (keys first).Nodup)
    (distinct' : (keys second).Nodup) {view : β → γ}
    (alike : ∀ key, (get? first key).map view = (get? second key).map view) :
    (first.map fun entry => view entry.2).Perm (second.map fun entry => view entry.2) := by
  have nodup {entries : Entries α β} (distinct : (keys entries).Nodup) :
      (entries.map fun entry => (entry.1, view entry.2)).Nodup := by
    refine List.Nodup.of_map Prod.fst ?_
    rwa [List.map_map]
  have named : (first.map fun entry => (entry.1, view entry.2)).Perm
      (second.map fun entry => (entry.1, view entry.2)) := by
    rw [List.perm_ext_iff_of_nodup (nodup distinct) (nodup distinct')]
    rintro ⟨key, seen⟩
    rw [mem_map_view distinct, mem_map_view distinct', alike]
  have views := named.map Prod.snd
  rwa [List.map_map, List.map_map] at views

omit [LawfulBEq α] in
theorem get?_append (first second : Entries α β) (key : α) :
    get? (first ++ second) key = (get? first key).or (get? second key) := List.lookup_append

theorem mem_keys_put {entries : Entries α β} {key other : α} {value : β} :
    other ∈ keys (put entries key value) ↔ other ∈ keys entries ∨ other = key := by
  rw [keys_put]
  split
  · next present =>
    refine ⟨.inl, fun listed => listed.elim id ?_⟩
    rintro rfl
    exact present
  · simp

private theorem nodup_keys_put {entries : Entries α β} {key : α} {value : β} (once : (keys entries).Nodup) :
    (keys (put entries key value)).Nodup := by
  rw [keys_put]
  split
  · exact once
  · next fresh =>
    rw [List.nodup_append]
    refine ⟨once, List.nodup_singleton key, ?_⟩
    rintro other member _ single rfl
    exact fresh (List.mem_singleton.mp single ▸ member)

/-- Entries that are made from pairs have each name once. -/
theorem nodup_keys_ofPairs (pairs : List (α × β)) : (keys (ofPairs pairs)).Nodup := by
  have kept (held : Entries α β) (once : (keys held).Nodup) :
      (keys (pairs.foldl (fun entries (key, value) => entries.put key value) held)).Nodup := by
    induction pairs generalizing held with
    | nil => exact once
    | cons pair rest ih => exact ih _ (nodup_keys_put once)
  exact kept [] List.nodup_nil

end LiterateRuby.Entries
