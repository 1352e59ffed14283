import GrammarSearch.Rule.Basic
import GrammarSearch.Table

/-!
# Rule trees

The rules of every grammar that was loaded, by handle, and the roots of the grammars by scope name.
Rules are added one after another and may be changed until the tree is built; after that it does not
change. A handle is the number of rules that were there before the rule.

Searching a group can give a match of another priority than it was searched with only if the group
has an injection, or reaches a group with one through children that are groups. Includes may make
cycles, so the flags of such groups are spread until nothing changes.
-/

namespace GrammarSearch

/-! ## Groups that reach injections -/

namespace Rule

/-- The flag at a handle; a handle beyond the rules has none. -/
def flagAt (flags : List Bool) (node : NodeId) : Bool :=
  flags[node.index]?.getD false

/-- Whether a rule is a group with an injection. -/
def injects (rule : Rule) : Bool :=
  rule.isGroup && !rule.injections.isEmpty

/-- One round of spreading flags from children to the groups that list them. -/
def spreadOnce (rules : List Rule) (flags : List Bool) : List Bool :=
  List.zipWith (fun rule flag => flag || (rule.isGroup && rule.children.any (flagAt flags)))
    rules flags

/-- Spreads flags until a round changes nothing, for at most so many rounds. -/
def spread (rules : List Rule) : Nat → List Bool → List Bool
  | 0, flags => flags
  | rounds + 1, flags =>
    let next := spreadOnce rules flags
    if next = flags then flags else spread rules rounds next

/-- For each rule, whether it is a group that reaches a group with an injection. Every round but the
last flags one more rule, so as many rounds as rules suffice. -/
def reachInjections (rules : List Rule) : List Bool :=
  spread rules rules.length (rules.map injects)

end Rule

/-! ## Trees -/

/-- The rules of all grammars. -/
structure Tree where
  rules : Array Rule
  /-- The root of each grammar by scope name. -/
  roots : Table NodeId
  /-- Which rules are groups that reach a group with an injection. -/
  flags : Array Bool
deriving Inhabited

namespace Tree

/-- The tree of some rules and roots. -/
def ofRules (rules : Array Rule) (roots : Table NodeId) : Tree :=
  ⟨rules, roots, (Rule.reachInjections rules.toList).toArray⟩

/-- The rule with a handle, if there is one. -/
def rule? (tree : Tree) (node : NodeId) : Option Rule :=
  tree.rules[node.index]?

/-- The root of the grammar with a scope name. -/
def root? (tree : Tree) (scopeName : String) : Option NodeId :=
  tree.roots.lookup scopeName

/-- How many rules there are. -/
def size (tree : Tree) : Nat :=
  tree.rules.size

/-- Whether searching a group can give a match of another priority than it was searched with. -/
def mayRaisePriority (tree : Tree) (node : NodeId) : Bool :=
  tree.flags[node.index]?.getD false

end Tree

/-! ## Building -/

/-- The entries of a repository by name. -/
abbrev Repository := Table NodeId

/-- A tree that is being built. -/
structure Builder where
  rules : Array Rule := #[]
  /-- The root of each grammar by scope name. -/
  roots : Table NodeId := []
  /-- The repository of each grammar by scope name. -/
  repositories : Table Repository := []
  /-- Injections into grammars that are not there yet, by scope name. -/
  pending : List (String × Injection) := []
deriving Inhabited

namespace Builder

/-- Adds a rule. -/
def addRule (builder : Builder) (rule : Rule) : NodeId × Builder :=
  (⟨builder.rules.size⟩, { builder with rules := builder.rules.push rule })

/-- Changes a rule, which has to be there. -/
def modifyRule (builder : Builder) (node : NodeId) (change : Rule → Rule) :
    Except Failure Builder :=
  match builder.rules[node.index]? with
  | some rule => .ok { builder with rules := builder.rules.setIfInBounds node.index (change rule) }
  | none => .error (.unknownNode node)

/-- Puts a rule in place of another one. -/
def replaceRule (builder : Builder) (node : NodeId) (rule : Rule) : Except Failure Builder :=
  builder.modifyRule node fun _ => rule

/-- Appends a child to a rule. -/
def addChild (builder : Builder) (parent child : NodeId) : Except Failure Builder :=
  builder.modifyRule parent fun rule => rule.addChild child

/-- Appends an injection to a rule. -/
def addInjection (builder : Builder) (node : NodeId) (injection : Injection) :
    Except Failure Builder :=
  builder.modifyRule node fun rule => rule.addInjection injection

/-- The tree of all rules added. -/
def build (builder : Builder) : Tree :=
  .ofRules builder.rules builder.roots

end Builder

end GrammarSearch
