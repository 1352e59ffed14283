import GrammarSearch.Json.Bytes

/-!
# Failures

Why a grammar could not be added, or why a search gave no answer. Where a rule is at fault, the
failure tells it by its handle: rules are told apart by handle, never by content.
-/

namespace GrammarSearch

/-- The handle of a rule of a tree: its place among the rules. Places are not bounded; in 32 bits
the handles of a tree of more than `2 ^ 32` rules would no longer tell its rules apart. -/
structure NodeId where
  index : Nat
deriving DecidableEq, Repr, Inhabited

namespace NodeId

/-- The handle in words. -/
def describe (node : NodeId) : String :=
  s!"NodeId({node.index})"

end NodeId

/-- The causes of failure. -/
inductive Failure where
  /-- The file of a grammar does not exist. -/
  | missingFile
  /-- The text of a grammar could not be read. -/
  | json (fault : Json.Fault)
  /-- The token of a search was cancelled. -/
  | cancelled
  /-- A pattern does not compile. -/
  | invalidPattern (pattern reason : String)
  /-- A handle belongs to no rule of the tree. -/
  | unknownNode (node : NodeId)
  /-- A search went through more rules inside each other than the configured depth allows. -/
  | recursionLimit (node : NodeId) (depth : Nat)
  /-- An include names nothing. -/
  | unresolvedInclude (target : String)
deriving DecidableEq, Repr, Inhabited

namespace Failure

/-- The failure in words. -/
def message : Failure → String
  | missingFile => "I/O error: No such file or directory (os error 2)"
  | json fault => "JSON parsing error: " ++ fault.describe
  | cancelled => "matching was cancelled"
  | invalidPattern pattern reason => "invalid regex '" ++ pattern ++ "': " ++ reason
  | unknownNode node => s!"node {node.index} is not part of the syntax tree"
  | recursionLimit node depth => s!"recursion limit of {depth} reached at node {node.index}"
  | unresolvedInclude target => "unresolved include '" ++ target ++ "'"

/-- Whether another failure, of reading a file or a text, lies behind this one. -/
def hasSource : Failure → Bool
  | missingFile | json _ => true
  | _ => false

/-- Whether the failure is a cancellation. -/
def isCancelled : Failure → Bool
  | cancelled => true
  | _ => false

/-- The failure with other handles. -/
def renumber (rename : NodeId → NodeId) : Failure → Failure
  | unknownNode node => unknownNode (rename node)
  | recursionLimit node depth => recursionLimit (rename node) depth
  | failure => failure

end Failure

end GrammarSearch
