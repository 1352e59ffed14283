import GrammarSearch.Capture
import GrammarSearch.Pattern.Basic
import GrammarSearch.Pattern.Template
import GrammarSearch.Failure

/-!
# Rules

A rule of a tree either matches a pattern by itself, or opens a region, or only closes one, or
groups other rules. Rules refer to each other by handle, so they may form cycles.
-/

namespace GrammarSearch

/-- Rules that take part wherever a selector applies. -/
structure Injection where
  selector : String
  target : NodeId
deriving DecidableEq, Repr, Inhabited

/-- A rule of a tree. -/
structure Rule where
  name : Option String := none
  contentName : Option String := none
  matchPattern : Option Pattern := none
  beginPattern : Option Pattern := none
  /-- Kept as it is written, since it may refer to groups of the begin pattern. -/
  endSource : Option String := none
  captures : Captures := []
  beginCaptures : Captures := []
  endCaptures : Captures := []
  children : List NodeId := []
  injections : List Injection := []
deriving DecidableEq, Repr, Inhabited

/-- What a rule contributes where it is a child of another one. -/
inductive RuleKind where
  /-- A match of its own pattern. -/
  | single (pattern : Pattern)
  /-- A match of its begin pattern, which opens a region. -/
  | region (pattern : Pattern)
  /-- Nothing: it only closes regions. -/
  | closing
  /-- Whatever its children contribute. -/
  | group
deriving DecidableEq, Repr, Inhabited

namespace RuleKind

/-- The name of a kind. -/
def name : RuleKind → String
  | single _ => "Match"
  | region _ => "Begin"
  | closing => "End"
  | group => "Group"

end RuleKind

namespace Rule

/-- What the rule contributes: the first of match, begin and end pattern that it has decides. -/
def kind (rule : Rule) : RuleKind :=
  match rule.matchPattern, rule.beginPattern, rule.endSource with
  | some pattern, _, _ => .single pattern
  | none, some pattern, _ => .region pattern
  | none, none, some _ => .closing
  | none, none, none => .group

/-- Whether the rule only groups others. -/
def isGroup (rule : Rule) : Bool :=
  rule.kind == .group

/-- Whether the rule has a begin pattern. -/
def hasBegin (rule : Rule) : Bool :=
  rule.beginPattern.isSome

/-- Whether the end pattern refers to groups of the begin pattern. -/
def endHasReferences (rule : Rule) : Bool :=
  rule.endSource.any Pattern.hasReferences

/-- The rule with one more child. -/
def addChild (rule : Rule) (child : NodeId) : Rule :=
  { rule with children := rule.children ++ [child] }

/-- The rule with one more injection. -/
def addInjection (rule : Rule) (injection : Injection) : Rule :=
  { rule with injections := rule.injections ++ [injection] }

end Rule

end GrammarSearch
