/-!
# Shelves

A shelf remembers values under keys and is emptied when a new key arrives while it is full. It never
holds more keys than its capacity, except that the newest key always stays.

A shelf only ever answers with what was put on it. `Shelf.Holds p` says that every entry satisfies a
relation `p` between keys and values; a put keeps it if the new entry satisfies `p`, and what is
found satisfies it.

## Main results

* `find?_put_self`: what was put is found.
* `size_put_le`: a put leaves at most `max 1 capacity` entries.
* `find?_eq_none_iff`: a key is found exactly if it is one of the keys of the entries.
-/

namespace GrammarSearch

/-- A bounded memory of values under keys, newest first. -/
structure Shelf (κ ν : Type) where
  capacity : Nat
  entries : List (κ × ν) := []
deriving Repr

namespace Shelf

variable {κ ν : Type}

/-- How many values the shelf holds. -/
def size (shelf : Shelf κ ν) : Nat :=
  shelf.entries.length

/-- The shelf without its values. -/
def clear (shelf : Shelf κ ν) : Shelf κ ν :=
  { shelf with entries := [] }

/-- Adds a value under a key that the shelf lacks, emptying a full shelf first. -/
def put (shelf : Shelf κ ν) (key : κ) (value : ν) : Shelf κ ν :=
  { shelf with
    entries := (key, value) :: if shelf.capacity ≤ shelf.size then [] else shelf.entries }

@[simp] theorem capacity_put (shelf : Shelf κ ν) (key : κ) (value : ν) :
    (shelf.put key value).capacity = shelf.capacity := rfl

/-- A put on a full shelf leaves one entry, and adds one otherwise. -/
theorem size_put (shelf : Shelf κ ν) (key : κ) (value : ν) :
    (shelf.put key value).size = if shelf.capacity ≤ shelf.size then 1 else shelf.size + 1 := by
  rw [size, put, List.length_cons]
  split
  · rfl
  · rfl

/-- A put leaves at most `max 1 capacity` entries. -/
theorem size_put_le (shelf : Shelf κ ν) (key : κ) (value : ν) :
    (shelf.put key value).size ≤ max 1 shelf.capacity := by
  rw [size_put]
  split <;> omega

/-! ## Contents -/

variable {shelf : Shelf κ ν} {p : κ → ν → Prop} {key : κ} {value : ν}

/-- The keys of the entries, newest first. -/
def keys (shelf : Shelf κ ν) : List κ :=
  shelf.entries.map Prod.fst

theorem length_keys (shelf : Shelf κ ν) : shelf.keys.length = shelf.size :=
  List.length_map _

/-- Every entry of the shelf satisfies a relation between keys and values. -/
def Holds (p : κ → ν → Prop) (shelf : Shelf κ ν) : Prop :=
  ∀ entry ∈ shelf.entries, p entry.1 entry.2

theorem Holds.put (h : shelf.Holds p) (hValue : p key value) : (shelf.put key value).Holds p := by
  intro entry hEntry
  unfold Shelf.put at hEntry
  rcases List.mem_cons.1 hEntry with rfl | hOld
  · exact hValue
  · split at hOld
    · contradiction
    · exact h entry hOld

/-! ## Look-ups -/

variable [DecidableEq κ]

/-- The value under a key. -/
def find? (shelf : Shelf κ ν) (key : κ) : Option ν :=
  shelf.entries.lookup key

/-- What was put is found. -/
@[simp] theorem find?_put_self (shelf : Shelf κ ν) (key : κ) (value : ν) :
    (shelf.put key value).find? key = some value := by
  simp [find?, put]

/-- A key is found exactly if an entry has it. -/
theorem find?_eq_none_iff : shelf.find? key = none ↔ key ∉ shelf.keys := by
  unfold find? keys
  rw [List.lookup_eq_none_iff, List.mem_map]
  constructor
  · rintro hNone ⟨entry, hEntry, rfl⟩
    simpa using hNone entry hEntry
  · intro hNew entry hEntry
    simpa using fun hSame => hNew ⟨entry, hEntry, hSame.symm⟩

/-- What is found under a key satisfies the relation. -/
theorem Holds.of_find? (h : shelf.Holds p) (hFind : shelf.find? key = some value) :
    p key value := by
  obtain ⟨front, back, hEntries, -⟩ := List.lookup_eq_some_iff.1 hFind
  apply h (key, value)
  rw [hEntries]
  exact List.mem_append_right front List.mem_cons_self

end Shelf

end GrammarSearch
