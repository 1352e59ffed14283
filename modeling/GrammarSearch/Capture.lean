import GrammarSearch.Match

/-!
# Captures

The captures of a rule give scope names to groups of a match. They are listed by group index, each
index at most once.

## Main results

* `sorted_put`: captures stay listed by index.
-/

namespace GrammarSearch

/-- Scope names of groups, by group index. -/
abbrev Captures := List (Nat × String)

/-- A group of a match with the scope name given to it. -/
structure NamedSpan where
  group : Nat
  span : Span
  name : String
deriving DecidableEq, Repr, Inhabited

namespace Captures

/-- Names a group, in place of an earlier name. -/
def put : Captures → Nat → String → Captures
  | [], group, name => [(group, name)]
  | (other, text) :: rest, group, name =>
    if group < other then
      (group, name) :: (other, text) :: rest
    else if group = other then
      (group, name) :: rest
    else
      (other, text) :: put rest group name

/-- The captures of a list in which later names replace earlier ones. -/
def ofList (entries : List (Nat × String)) : Captures :=
  entries.foldl (fun captures (group, name) => put captures group name) []

/-- The groups of a match that have a name and some text, by index. -/
def named (captures : Captures) (hit : Match) : List NamedSpan :=
  captures.filterMap fun (group, name) =>
    match hit.span? group with
    | some span => if name.isEmpty || span.isEmpty then none else some ⟨group, span, name⟩
    | none => none

/-- Captures are listed by strictly increasing index. -/
def Sorted (captures : Captures) : Prop :=
  captures.Pairwise fun first second => first.1 < second.1

/-- The indices after naming a group are those before and the group. -/
theorem mem_put_index {captures : Captures} {group index : Nat} {name : String} :
    index ∈ (put captures group name).map (·.1) ↔ index = group ∨ index ∈ captures.map (·.1) := by
  induction captures with
  | nil => simp [put]
  | cons entry rest ih =>
    obtain ⟨other, text⟩ := entry
    simp only [put]
    split
    · simp
    · split
      · next hEq =>
        subst hEq
        simp
      · simp only [List.map_cons, List.mem_cons, ih]
        exact or_left_comm

/-- Captures stay listed by index. -/
theorem sorted_put {captures : Captures} (hSorted : captures.Sorted) (group : Nat) (name : String) :
    (put captures group name).Sorted := by
  induction captures with
  | nil => simp [put, Sorted]
  | cons entry rest ih =>
    obtain ⟨other, text⟩ := entry
    obtain ⟨hHead, hRest⟩ := List.pairwise_cons.1 hSorted
    simp only [put]
    split
    · next hLt =>
      refine List.pairwise_cons.2 ⟨fun later hLater => ?_, hSorted⟩
      rcases List.mem_cons.1 hLater with rfl | hLater
      · exact hLt
      · exact Nat.lt_trans hLt (hHead later hLater)
    · next hNotLt =>
      split
      · next hEq =>
        subst hEq
        exact List.pairwise_cons.2 ⟨hHead, hRest⟩
      · next hNe =>
        refine List.pairwise_cons.2 ⟨fun later hLater => ?_, ih hRest⟩
        rcases mem_put_index.1 (List.mem_map_of_mem hLater) with hGroup | hOld
        · show other < later.1
          omega
        · obtain ⟨entry, hEntry, hIndex⟩ := List.mem_map.1 hOld
          have hEntryLt := hHead entry hEntry
          show other < later.1
          omega

end Captures

end GrammarSearch
