import GrammarSearch.Rule.Tree

/-!
# What includes mean

An include is looked up from the place where it stands: names with `#` in front in the repositories
around it, innermost first, and names of scopes among the grammars that are loaded.
-/

namespace GrammarSearch

/-- What the includes at a place of a grammar can refer to. -/
structure Scoping where
  /-- The grammar's own scope name. -/
  scopeName : String
  /-- The grammar's own root. -/
  root : NodeId
  /-- The roots of the grammars loaded before. -/
  roots : Table NodeId
  /-- The repositories of the grammars loaded before. -/
  repositories : Table Repository
  /-- The grammar's own repository. -/
  own : Repository
  /-- The repositories of the rules around the place, innermost first. -/
  inner : List Repository := []
deriving Inhabited

namespace Scoping

/-- A text cut at its first `#`. -/
def splitScope? (target : List Char) : Option (List Char × List Char) :=
  match target.dropWhile (· != '#') with
  | [] => none
  | _ :: name => some (target.takeWhile (· != '#'), name)

/-- The entry of a name in the innermost repository that has it. -/
def localEntry? (scoping : Scoping) (name : String) : Option NodeId :=
  (scoping.inner ++ [scoping.own]).findSome? fun repository => repository.lookup name

/-- The entry of a name in the repository of the grammar with a scope name. -/
def scopeEntry? (scoping : Scoping) (scope name : String) : Option NodeId :=
  if scope = scoping.scopeName then
    scoping.own.lookup name
  else
    (scoping.repositories.lookup scope).bind fun repository => repository.lookup name

/-- The root of the grammar with a scope name. -/
def scopeRoot? (scoping : Scoping) (scope : String) : Option NodeId :=
  if scope = scoping.scopeName then some scoping.root else scoping.roots.lookup scope

/-- The rule that an include refers to. -/
def resolve? (scoping : Scoping) (target : String) : Option NodeId :=
  if target = "$self" ∨ target = "$base" then
    some scoping.root
  else
    match splitScope? target.toList with
    | some ([], name) => scoping.localEntry? (String.ofList name)
    | some (scope, name) => scoping.scopeEntry? (String.ofList scope) (String.ofList name)
    | none => scoping.scopeRoot? target

/-- The rule that an include refers to; it is a failure if there is none. -/
def resolve (scoping : Scoping) (target : String) : Except Failure NodeId :=
  match scoping.resolve? target with
  | some node => .ok node
  | none => .error (.unresolvedInclude target)

/-- The scoping inside a rule with a repository of its own. -/
def within (scoping : Scoping) (repository : Repository) : Scoping :=
  { scoping with inner := repository :: scoping.inner }

end Scoping

end GrammarSearch
