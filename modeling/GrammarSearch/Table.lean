/-!
# Tables by name

A table keeps its names in the order in which they first came; a value put under a name that is
there takes the place of the earlier one.

## Main results

* `lookup_put`: what is found after a put.
* `mem_put`: what is an entry after a put.
-/

namespace GrammarSearch

/-- Values by name, in order of first appearance. -/
abbrev Table (α : Type) := List (String × α)

namespace Table

variable {α : Type}

/-- Puts a value under a name, in place of an earlier one. -/
def put (name : String) (value : α) : Table α → Table α
  | [] => [(name, value)]
  | (other, old) :: rest =>
    if other = name then (name, value) :: rest else (other, old) :: put name value rest

/-- After a put the name has the new value and every other name what it had. -/
theorem lookup_put (table : Table α) (name other : String) (value : α) :
    (put name value table).lookup other =
      if other = name then some value else table.lookup other := by
  induction table with
  | nil =>
    by_cases h : other = name
    · simp [put, h]
    · simp [put, h, List.lookup_cons, beq_false_of_ne h]
  | cons entry rest ih =>
    obtain ⟨key, old⟩ := entry
    simp only [put]
    split
    · next hKey =>
      subst hKey
      by_cases h : other = key
      · simp [h]
      · simp [h, List.lookup_cons, beq_false_of_ne h]
    · next hKey =>
      by_cases h : other = key
      · subst h
        simp [hKey]
      · rw [List.lookup_cons, List.lookup_cons, beq_false_of_ne h, ih]

/-- An entry after a put is the new one or an earlier one. -/
theorem mem_put {table : Table α} {name : String} {value : α} {entry : String × α}
    (hMem : entry ∈ put name value table) : entry = (name, value) ∨ entry ∈ table := by
  induction table with
  | nil => exact .inl (List.mem_singleton.1 hMem)
  | cons first rest ih =>
    simp only [put] at hMem
    split at hMem
    · rcases List.mem_cons.1 hMem with rfl | hRest
      · exact .inl rfl
      · exact .inr (List.mem_cons_of_mem _ hRest)
    · rcases List.mem_cons.1 hMem with rfl | hRest
      · exact .inr List.mem_cons_self
      · exact (ih hRest).imp id (List.mem_cons_of_mem _)

/-- What is found under a name is an entry. -/
theorem mem_of_lookup {table : Table α} {name : String} {value : α}
    (hLookup : table.lookup name = some value) : (name, value) ∈ table := by
  obtain ⟨before, after, rfl, -⟩ := List.lookup_eq_some_iff.1 hLookup
  exact List.mem_append_right before List.mem_cons_self

/-- The values of a table in the order of their names. -/
def sorted (table : Table α) : Table α :=
  table.mergeSort fun first second => decide (first.1 ≤ second.1)

end Table

end GrammarSearch
