/-! # Entries in first-written order

Constants, aliases and front matter are looked up by name and shown in the order in which the
names were first written: writing a name again replaces its value and keeps its place.
-/

namespace LiterateRuby

/-- Named values in the order in which their names were first written. -/
abbrev Entries (α : Type u) (β : Type v) := List (α × β)

namespace Entries

def keys (entries : Entries α β) : List α := entries.map (·.1)

def get? [BEq α] (entries : Entries α β) (key : α) : Option β := entries.lookup key

def has [BEq α] (entries : Entries α β) (key : α) : Bool := (entries.lookup key).isSome

/-- Writes a value under a name, where names are compared by `same`. -/
def putBy (same : α → α → Bool) (entries : Entries α β) (key : α) (value : β) : Entries α β :=
  match entries with
  | [] => [(key, value)]
  | (other, old) :: rest =>
    if same other key then (other, value) :: rest else (other, old) :: putBy same rest key value

/-- Writes a value under a name. -/
def put [BEq α] (entries : Entries α β) (key : α) (value : β) : Entries α β :=
  putBy (· == ·) entries key value

/-- Writes pairs one after the other. -/
def ofPairs [BEq α] (pairs : List (α × β)) : Entries α β :=
  pairs.foldl (fun entries (key, value) => entries.put key value) []

/-- Changes the value of a name, if it is present. -/
def adjust [BEq α] (entries : Entries α β) (key : α) (change : β → β) : Entries α β :=
  entries.map fun (other, value) => if other == key then (other, change value) else (other, value)

theorem keys_adjust [BEq α] (entries : Entries α β) (key : α) (change : β → β) :
    keys (adjust entries key change) = keys entries := by
  simp only [keys, adjust, List.map_map]
  refine List.map_congr_left fun entry _ => ?_
  simp only [Function.comp_apply]
  split <;> rfl

theorem keys_put [BEq α] [LawfulBEq α] (entries : Entries α β) (key : α) (value : β) :
    keys (put entries key value) =
      if key ∈ keys entries then keys entries else keys entries ++ [key] := by
  induction entries with
  | nil => simp [put, putBy, keys]
  | cons entry rest ih =>
    obtain ⟨other, old⟩ := entry
    by_cases same : other = key
    · simp [put, putBy, keys, same]
    · have different : (other == key) = false := by simpa using same
      have step : put ((other, old) :: rest) key value = (other, old) :: put rest key value := by
        simp [put, putBy, different]
      rw [step]
      simp only [keys, List.map_cons] at ih ⊢
      rw [ih]
      by_cases member : key ∈ rest.map (·.1)
      · simp [member]
      · simp [member, Ne.symm same]

end Entries

end LiterateRuby
