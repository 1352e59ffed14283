import GrammarSearch.Priority
import GrammarSearch.Scope

/-!
# Selectors

A selector says on which scope paths an injection applies, and how well. A path of names asks for
scopes in that order; selectors combine by conjunction, choice and exclusion.

The score of a path is found from the innermost scope outwards: each name, last first, takes the
innermost scope left that it covers. Scopes further in and names with more atoms score higher.

Scores are exact integers. In 32 bits they are the same as long as no sum of them reaches `2 ^ 31`;
a name on the innermost of `n` scopes scores about `100 * n`, so for one path of names this takes
thousands of scopes.

## Main results

* `same_eq_true_iff`: selectors are compared by structure.
-/

namespace GrammarSearch

/-- A condition on scope paths. -/
inductive Selector where
  /-- Scopes covered by these names appear in this order. -/
  | path (names : List String)
  /-- Every part applies. -/
  | all (parts : List Selector)
  /-- Some part applies. -/
  | any (parts : List Selector)
  /-- The part does not apply. -/
  | exclude (part : Selector)
deriving Inhabited

namespace Selector

/-! ## Scores -/

/-- What a name scores on a scope with `outer` scopes around it. -/
def nameScore (name : String) (outer : Nat) : Int :=
  (outer + 1) * 100 + Scope.atomCount name

/-- The score of names, last first, on scopes, innermost first: each name takes the innermost scope
left that it covers. -/
def climb : (names scopes : List String) → Option Int
  | [], _ => some 0
  | _ :: _, [] => none
  | name :: names, scope :: outer =>
    if Scope.covers name scope then
      (climb names outer).map fun rest => nameScore name outer.length + rest
    else
      climb (name :: names) outer

mutual

/-- How well a selector applies to a list of scopes, outermost first; `none` where it does not. A
conjunction adds up, a choice takes its best part, and an exclusion alone scores nothing. -/
def score (scopes : List String) : Selector → Option Int
  | path names => climb names.reverse scopes.reverse
  | all parts => sumScore scopes parts
  | any parts => bestScore scopes parts
  | exclude part =>
    match part.score scopes with
    | some _ => none
    | none => some 0

/-- The sum of the scores of selectors that all apply. -/
def sumScore (scopes : List String) : List Selector → Option Int
  | [] => some 0
  | part :: parts =>
    match part.score scopes, sumScore scopes parts with
    | some first, some rest => some (first + rest)
    | _, _ => none

/-- The best score among the selectors that apply. -/
def bestScore (scopes : List String) : List Selector → Option Int
  | [] => none
  | part :: parts =>
    match part.score scopes, bestScore scopes parts with
    | some first, some rest => some (max first rest)
    | some first, none => some first
    | none, rest => rest

end

/-! ## Comparison -/

mutual

/-- Whether two selectors have the same structure. -/
def same : Selector → Selector → Bool
  | path names, path others => names == others
  | all parts, all others => sameList parts others
  | any parts, any others => sameList parts others
  | exclude part, exclude other => same part other
  | _, _ => false

/-- Whether two lists of selectors have the same structure, one by one. -/
def sameList : List Selector → List Selector → Bool
  | [], [] => true
  | part :: parts, other :: others => same part other && sameList parts others
  | _, _ => false

end

mutual

/-- Selectors are compared by structure. -/
theorem same_eq_true_iff : ∀ a b : Selector, same a b = true ↔ a = b
  | path names, b => by cases b <;> simp [same]
  | all parts, b => by cases b <;> simp [same, sameList_eq_true_iff parts]
  | any parts, b => by cases b <;> simp [same, sameList_eq_true_iff parts]
  | exclude part, b => by cases b <;> simp [same, same_eq_true_iff part]

theorem sameList_eq_true_iff : ∀ as bs : List Selector, sameList as bs = true ↔ as = bs
  | [], bs => by cases bs <;> simp [sameList]
  | part :: parts, bs => by
    cases bs <;> simp [sameList, same_eq_true_iff part, sameList_eq_true_iff parts]

end

instance : DecidableEq Selector := fun a b =>
  decidable_of_iff (same a b = true) (same_eq_true_iff a b)

end Selector

/-- One of the alternatives of an injection's selector, with the priority it gives. -/
structure Alternative where
  priority : Priority
  selector : Selector
deriving DecidableEq, Inhabited

namespace Alternative

/-- How well the alternative applies to a list of scopes, outermost first. -/
def score (alternative : Alternative) (scopes : List String) : Option Int :=
  alternative.selector.score scopes

end Alternative

end GrammarSearch
