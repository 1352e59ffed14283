import GrammarSearch.Pattern.Settling

/-!
# Plans

A plan says how a settled expression is tried. It differs from the expression in its loops. A
repetition that takes no text ends the loop it is in, however many more the loop asks for, but only
where that is checked: the repetitions of a short loop, and those that a loop without an upper bound
has to begin with, are carried out one after another without a check.

What is short is a matter of the size of a plan, roughly the number of steps it has.
-/

namespace GrammarSearch.Pattern

/-- How an expression is tried. -/
inductive Plan where
  | empty
  | text (chars : List Char)
  | member (cls : CharClass)
  | word (negated : Bool)
  | any (lineFeed : Bool)
  | anchor (anchor : Anchor)
  | seq (first second : Plan)
  | choice (first second : Plan)
  /-- A group. Unless `kept`, where it was entered last stays known when that way is given up. -/
  | group (index : Nat) (kept : Bool) (body : Plan)
  | reference (index : Nat) (ignoreCase : Bool)
  /-- Repetitions. One that takes no text is the last, if that is checked; but it counts if it sets
  one of the groups that are watched. -/
  | loop (count : Repeat) (watched : Option (List Nat)) (body : Plan)
  | atomic (body : Plan)
  | ahead (negated : Bool) (body : Plan)
  /-- What has to match from a number of characters back. -/
  | back (negated : Bool) (chars : Nat) (body : Plan)
  /-- What has to match from some number of characters back up to the place itself. -/
  | behind (negated : Bool) (chars : Extent) (body : Plan)
  | never
deriving DecidableEq, Repr, Inhabited

/-- How the repetitions of a loop are carried out. -/
inductive LoopForm where
  /-- One after another, without a check. -/
  | bare
  /-- So many one after another without a check, then any number with one. -/
  | tailed (bare : Nat)
  /-- By counting, each with a check. -/
  | counted
deriving DecidableEq, Repr, Inhabited

namespace Repeat

/-- The greatest size that repetitions carried out one after another may have. -/
def maxSize : Nat := 10

/-- How the repetitions of a body of some size are carried out. -/
def formOn (count : Repeat) (size : Nat) : LoopForm :=
  match count.most with
  | none =>
    if count.least = 1 ∧ maxSize < size then .tailed 0
    else if count.least ≤ 1 ∨ size * count.least ≤ maxSize then .tailed count.least
    else .counted
  | some most =>
    if count.greedy then
      if most = 1 ∨ (size + 1) * most ≤ maxSize then .bare else .counted
    else
      if count.least = 0 ∧ most = 1 then .bare else .counted

end Repeat

namespace Expr

/-- The number of runs of characters of the same length in bytes. -/
def runCount : List Char → Nat
  | [] => 0
  | [_] => 1
  | c :: d :: rest => (if c.utf8Size = d.utf8Size then 0 else 1) + runCount (d :: rest)

mutual

/-- The size of the plan of an expression. -/
def size (facts : GroupFacts) : Expr → Nat
  | text chars _ => runCount chars
  | member _ | word _ | any _ | anchor _ | reference _ _ | never => 1
  | seq items => sizeOfAll facts items
  | choice alternatives => sizeOfAll facts alternatives + 2 * (alternatives.length - 1)
  | group _ body => body.size facts + 2
  | optioned body => body.size facts
  | atomic implied body => body.size facts + if implied then 1 else 2
  | look false negated body => body.size facts + if negated then 5 else 2
  | look true negated body =>
    if (facts.charWidth body).isExact then
      body.size facts + if negated then 6 else 3
    else
      body.size facts + 12
  | loop count body =>
    let size := body.size facts
    if count.most = some 0 ∨ size = 0 then
      0
    else
      let checked := if facts.mayBeEmpty body then size + 2 else size
      match count.formOn size, body, count.most with
      | .bare, _, some most =>
        if count.greedy then size * count.least + (size + 1) * (most - count.least) else size + 2
      | .tailed bare, any _, _ =>
        if count.greedy then size * bare + 1 else size * bare + checked + 2
      | .tailed bare, _, _ => (if bare < count.least then 1 else size * bare) + checked + 2
      | _, _, _ => checked + 2

/-- The size of the plans of expressions together. -/
def sizeOfAll (facts : GroupFacts) : List Expr → Nat
  | [] => 0
  | expr :: rest => expr.size facts + sizeOfAll facts rest

end

mutual

/-- Whether an expression has a group that a loop around it sees. -/
def hasGroup : Expr → Bool
  | group _ _ => true
  | seq exprs | choice exprs => anyHasGroup exprs
  | optioned body | atomic _ body => body.hasGroup
  | loop count body => count.most != some 0 && body.hasGroup
  | text _ _ | member _ | word _ | any _ | anchor _ | reference _ _ | look _ _ _ | never => false

/-- Whether one of several expressions has a group that a loop around it sees. -/
def anyHasGroup : List Expr → Bool
  | [] => false
  | expr :: rest => expr.hasGroup || anyHasGroup rest

end

mutual

/-- The groups of an expression that are in no further loop whose repetitions may take no text. -/
def ownGroups (facts : GroupFacts) : Expr → List Nat
  | group index body => index :: body.ownGroups facts
  | seq exprs | choice exprs => ownGroupsOfAll facts exprs
  | optioned body | atomic _ body | look _ true body => body.ownGroups facts
  | loop count body =>
    if count.most != some 0 && facts.mayBeEmpty body then [] else body.ownGroups facts
  | text _ _ | member _ | word _ | any _ | anchor _ | reference _ _ | look _ false _ | never => []

/-- The groups of expressions that are in no further loop whose repetitions may take no text. -/
def ownGroupsOfAll (facts : GroupFacts) : List Expr → List Nat
  | [] => []
  | expr :: rest => expr.ownGroups facts ++ ownGroupsOfAll facts rest

end

/-- The groups that the check of a loop watches: its own groups that something outside of it refers
to. There is no check if each repetition takes text. -/
def watchedBy (facts : GroupFacts) (body : Expr) : Option (List Nat) :=
  if !facts.mayBeEmpty body then
    none
  else if body.hasGroup then
    let inside := body.references
    some ((body.ownGroups facts).filter fun index =>
      inside.count index < facts.references.count index)
  else
    some []

/-- The plan of a loop over a body that has a plan. -/
def planLoop (facts : GroupFacts) (count : Repeat) (body : Expr) (plan : Plan) : Plan :=
  let size := body.size facts
  if count.most = some 0 ∨ size = 0 then
    .empty
  else
    let watched := body.watchedBy facts
    match count.formOn size with
    | .bare => .loop count none plan
    | .tailed 0 => .loop count watched plan
    | .tailed bare =>
      .seq (.loop ⟨bare, some bare, true⟩ none plan) (.loop { count with least := 0 } watched plan)
    | .counted => .loop count watched plan

mutual

/-- The plan of an expression. Groups are kept that may be left out or tried again in a way that
makes a difference, such as in a choice or in a loop that is not fixed, and those that are referred
to. -/
def plan (facts : GroupFacts) (keep : Bool) : Expr → Plan
  | text [] _ => .empty
  | text chars _ => .text chars
  | member cls => .member cls
  | word negated => .word negated
  | any lineFeed => .any lineFeed
  | anchor place => .anchor place
  | seq items => planAll facts keep items
  | choice alternatives => planAny facts alternatives
  | group index body =>
    .group index (keep || facts.references.contains index) (body.plan facts keep)
  | optioned body => body.plan facts keep
  | reference index ignoreCase => .reference index ignoreCase
  | loop count body => body.planLoop facts count (body.plan facts (keep || !count.isFixed))
  | atomic _ body => .atomic (body.plan facts keep)
  | look false negated body => .ahead negated (body.plan facts (keep || negated))
  | look true negated body =>
    let width := facts.charWidth body
    let plan := body.plan facts (keep || negated)
    if width.isExact then
      .back negated width.least plan
    else
      .behind negated width.toExtent plan
  | never => .never

/-- The plan of expressions one after another. -/
def planAll (facts : GroupFacts) (keep : Bool) : List Expr → Plan
  | [] => .empty
  | [expr] => expr.plan facts keep
  | expr :: rest => .seq (expr.plan facts keep) (planAll facts keep rest)

/-- The plan of expressions to choose from. -/
def planAny (facts : GroupFacts) : List Expr → Plan
  | [] => .never
  | [expr] => expr.plan facts true
  | expr :: rest => .choice (expr.plan facts true) (planAny facts rest)

end

end Expr

end GrammarSearch.Pattern
