import GrammarSearch.Rule.Tree

/-!
# Numbers for rules

Handles depend on the order in which a grammar's repository is compiled. A numbering does not: given
rules keep their place in a list, and every other rule gets the next number when a walk from those
rules first reaches it. The walk goes depth first, to the children of a rule in order and then to
the targets of its injections, and visits no rule twice.
-/

namespace GrammarSearch

/-- Rules by number. -/
structure Numbering where
  nodes : List NodeId
deriving Repr, Inhabited

namespace Numbering

/-- The number of a rule. -/
def number? (numbering : Numbering) (node : NodeId) : Option Nat :=
  numbering.nodes.idxOf? node

/-- The rule with a number. -/
def node? (numbering : Numbering) (number : Nat) : Option NodeId :=
  numbering.nodes[number]?

/-- Gives the next number to a rule that has none. -/
def add (numbering : Numbering) (node : NodeId) : Numbering :=
  if numbering.nodes.contains node then numbering else ⟨numbering.nodes ++ [node]⟩

/-- The rules that a rule refers to, in the order of the walk. -/
def successors (rule : Rule) : List NodeId :=
  rule.children ++ rule.injections.map (·.target)

/-- Walks on from the rules that are still to be visited. Every step takes one of them away. -/
def walk (tree : Tree) : Nat → (visited toVisit : List NodeId) → Numbering → Numbering
  | 0, _, _, numbering => numbering
  | _ + 1, _, [], numbering => numbering
  | steps + 1, visited, node :: toVisit, numbering =>
    if visited.contains node then
      walk tree steps visited toVisit numbering
    else
      match tree.rule? node with
      | none => walk tree steps visited toVisit numbering
      | some rule =>
        walk tree steps (node :: visited) (successors rule ++ toVisit) (numbering.add node)

/-- The numbering of a tree in which the given rules come first. The walk has as many steps as there
are given rules and references between rules. -/
def ofTree (tree : Tree) (given : List NodeId) : Numbering :=
  let references :=
    tree.rules.toList.foldl (fun count rule => count + (successors rule).length) 0
  walk tree (given.length + references) [] given ⟨given⟩

end Numbering

end GrammarSearch
