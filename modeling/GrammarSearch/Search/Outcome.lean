import GrammarSearch.Priority
import GrammarSearch.Rule.Tree

/-!
# Outcomes of a search

An outcome says which rule matched, where, and with which priority. Of two outcomes the one that
starts first is kept, and of two that start together the one of higher priority; a match without
text takes the place of one with text only if its rule opens a region.
-/

namespace GrammarSearch

/-- Which rule matched where. An outcome whose match is missing says that nothing applies. -/
structure Outcome where
  rule : NodeId
  hit : Match
  priority : Priority
  /-- The line that the match points into, if a pattern was run at all. -/
  source : Option Line
deriving DecidableEq, Repr, Inhabited

namespace Outcome

/-- The outcome of a rule under which no pattern was run. -/
def nothing (rule : NodeId) : Outcome :=
  ⟨rule, .missing, .normal, none⟩

/-- Whether something matched. -/
def found (outcome : Outcome) : Bool :=
  outcome.hit.found

/-- Where the match starts. -/
def start? (outcome : Outcome) : Option Nat :=
  outcome.hit.start?

/-- Whether the match has some text, or its rule opens a region. -/
def isSolid (tree : Tree) (outcome : Outcome) : Bool :=
  !outcome.hit.isEmpty || (tree.rule? outcome.rule).any Rule.hasBegin

/-- Whether a match at `newStart` goes before one at `oldStart`: it starts earlier, or together with
it and with higher priority. -/
def precedes (newStart oldStart : Nat) (newPriority oldPriority : Priority) : Bool :=
  decide (newStart < oldStart) || (newStart == oldStart && decide (oldPriority < newPriority))

/-- The more important of the best outcome so far and a new one. -/
def better (tree : Tree) (old new : Outcome) : Outcome :=
  match new.start?, old.start? with
  | none, _ => old
  | some _, none => new
  | some newStart, some oldStart =>
    if precedes newStart oldStart new.priority old.priority &&
        (new.isSolid tree || old.hit.isEmpty) then
      new
    else
      old

/-- A missing outcome never takes the place of another. -/
@[simp] theorem better_nothing (tree : Tree) (old : Outcome) (rule : NodeId) :
    better tree old (nothing rule) = old := rfl

/-- Of two outcomes one is kept as it is. -/
theorem better_eq_or (tree : Tree) (old new : Outcome) :
    better tree old new = old ∨ better tree old new = new := by
  simp only [better]
  split
  · exact Or.inl rfl
  · exact Or.inr rfl
  · split
    · exact Or.inr rfl
    · exact Or.inl rfl

end Outcome

end GrammarSearch
