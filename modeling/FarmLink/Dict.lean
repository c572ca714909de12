import FarmLink.Text.Basic

/-!
# Dict - ordered maps with text keys

Decoded frames keep their entries in the order in which the device sent them. A dict is the list
of its entries; `put` writes a new key behind the others and a known key in its place, so a key
stands where it was first put and holds what was last put.
-/

namespace FarmLink

/-- An ordered map with text keys. -/
abbrev Dict (α : Type) := List (Text × α)

namespace Dict

variable {α β : Type}

/-- The value of a key. -/
def get? : Dict α → Text → Option α
  | [], _ => none
  | (k, v) :: d, key => if k = key then some v else get? d key

/-- Whether a key has a value. -/
def has (d : Dict α) (key : Text) : Bool := (d.get? key).isSome

/-- A dict with a value for a key: in the key's place, or behind the others. -/
def put : Dict α → Text → α → Dict α
  | [], key, value => [(key, value)]
  | (k, v) :: d, key, value => if k = key then (k, value) :: d else (k, v) :: put d key value

/-- The dict that a sequence of entries builds when each is put in turn. -/
def ofEntries (entries : List (Text × α)) : Dict α :=
  entries.foldl (fun d e => d.put e.1 e.2) []

/-- The keys in order. -/
def keys (d : Dict α) : List Text := d.map Prod.fst

/-- The same keys with other values. -/
def mapValues (f : α → β) (d : Dict α) : Dict β := d.map fun e => (e.1, f e.2)

/-- The entries in the order of their keys. -/
def sorted (d : Dict α) : Dict α := d.mergeSort fun a b => Text.precedes a.1 b.1

/-- A put value is found, and nothing else changes. -/
theorem get?_put (d : Dict α) (key other : Text) (value : α) :
    (d.put key value).get? other = if key = other then some value else d.get? other := by
  induction d with
  | nil => by_cases h : key = other <;> simp [put, get?, h]
  | cons e d ih =>
    obtain ⟨k, v⟩ := e
    by_cases h : k = key
    · subst h
      by_cases h2 : k = other <;> simp [put, get?, h2]
    · by_cases h2 : k = other
      · subst h2
        have h3 : ¬ key = k := fun h3 => h h3.symm
        simp [put, get?, h, h3]
      · simp [put, get?, h, h2, ih]

/-- A known key keeps its place, a new one comes last. -/
theorem keys_put (d : Dict α) (key : Text) (value : α) :
    (d.put key value).keys = if key ∈ d.keys then d.keys else d.keys ++ [key] := by
  induction d with
  | nil => simp [put, keys]
  | cons e d ih =>
    obtain ⟨k, v⟩ := e
    by_cases h : k = key
    · subst h
      simp [put, keys]
    · have h3 : ¬ key = k := fun h3 => h h3.symm
      simp only [keys] at ih
      by_cases hm : key ∈ d.map Prod.fst <;> simp_all [put, keys]

end Dict

end FarmLink
