import GrammarSearch.Search.Session

/-!
# The rule that matches first

A search visits a rule, its children in order and then the targets of its applicable injections, and
keeps the most important outcome. Children that match by themselves are run on the line; children
that group others are visited in their turn, as are the targets of injections, at the priority that
the weigher gives them.

Every visit lowers the budget by one, so that a search ends also where rules contain each other.
Answers are remembered per visit: what a rule gives does not depend on how deep it was visited.
-/

namespace GrammarSearch.Engine

variable {σ : Type} {m : Type → Type}

/-- How to visit a rule at a priority. -/
abbrev Visit (m : Type → Type) := NodeId → Priority → m Outcome

/-- How to weigh a selector for a scope path. -/
abbrev Weigh (m : Type → Type) := (selector scope : String) → m Weight

/-- Whether no later sibling can win over the best outcome so far. Nothing starts before the offset
that is searched from, and only injections raise the priority. -/
def settles (engine : Engine σ) (query : Query) (priority : Priority) (best : Outcome)
    (later : List NodeId) : Bool :=
  engine.options.earlyExit && best.start? == some query.offset &&
    (best.priority == .high ||
      (decide (priority ≤ best.priority) && !later.any engine.tree.mayRaisePriority))

section Exploring

variable [Monad m] [MonadExceptOf Failure m]

/-- What a child contributes. -/
def candidate (engine : Engine σ) (query : Query) (visit : Visit m) (priority : Priority)
    (child : NodeId) : m Outcome :=
  match engine.tree.rule? child with
  | none => throw (.unknownNode child)
  | some rule =>
    match rule.kind with
    | .single pattern | .region pattern => do
      let hit ← ofExcept (engine.dialect.search pattern query.line query.offset)
      return ⟨child, hit, priority, some query.line⟩
    | .closing => return .nothing child
    | .group => visit child priority

/-- The best of an outcome and those of children, up to where no later child can win. -/
def bestChild (engine : Engine σ) (query : Query) (visit : Visit m) (priority : Priority) :
    Outcome → List NodeId → m Outcome
  | best, [] => return best
  | best, child :: later => do
    let outcome ← engine.candidate query visit priority child
    let best := Outcome.better engine.tree best outcome
    if engine.settles query priority best later then
      return best
    else
      bestChild engine query visit priority best later

/-- The best of an outcome and those of the injections that apply. -/
def bestInjection (engine : Engine σ) (query : Query) (weigh : Weigh m) (visit : Visit m) :
    Outcome → List Injection → m Outcome
  | best, [] => return best
  | best, injection :: later => do
    let weight ← weigh injection.selector query.scope
    if weight.applies then do
      let outcome ← visit injection.target weight.priority
      bestInjection engine query weigh visit (Outcome.better engine.tree best outcome) later
    else
      bestInjection engine query weigh visit best later

/-- The most important outcome under a rule, given how to weigh selectors and how to visit the
groups and injections below it. -/
def explore (engine : Engine σ) (query : Query) (weigh : Weigh m) (visit : Visit m) : Visit m :=
  fun node priority =>
    match engine.tree.rule? node with
    | none => throw (.unknownNode node)
    | some rule => do
      let best ← engine.bestChild query visit priority (.nothing node) rule.children
      let injected ← engine.bestInjection query weigh visit (.nothing node) rule.injections
      return Outcome.better engine.tree best injected

end Exploring

/-- Visits a rule while there is budget left. -/
def visit (engine : Engine σ) (query : Query) : (budget : Nat) → Visit (Search σ)
  | 0 => fun node _ => do
    Search.checkToken query.token
    throw (.recursionLimit node engine.options.maxDepth)
  | budget + 1 => fun node priority => do
    Search.checkToken query.token
    Search.remember (query.key node priority)
      (engine.explore query engine.weigh (engine.visit query budget) node priority)

/-- The outcome of the rule that matches first at or after the offset, under a rule searched with a
priority. That nothing applies is an outcome too. -/
def first (engine : Engine σ) (query : Query) (node : NodeId) (priority : Priority) :
    Search σ Outcome :=
  engine.visit query (engine.options.maxDepth + 1) node priority

/-- The match of the end pattern of the rule that an outcome opened, with the groups of its begin
pattern filled in. A rule without an end pattern never ends. -/
def closing (engine : Engine σ) (opened : Outcome) (line : Line) (offset : Nat) : Search σ Match :=
  match engine.tree.rule? opened.rule with
  | none => throw (.unknownNode opened.rule)
  | some rule =>
    match rule.endSource with
    | none => return .missing
    | some source => do
      let pattern ← endPattern (Pattern.resolve source opened.source opened.hit)
      Search.ofExcept (engine.dialect.search pattern line offset)

/-! ## Whole lines -/

/-- The offset to go on from after an outcome: the end of its match, but always further on. -/
def nextOffset (offset : Nat) (outcome : Outcome) : Nat :=
  match outcome.hit.groups with
  | whole :: _ => max whole.stop (offset + 1)
  | [] => offset + 1

/-- Searches on and on from the offset to the end of the line, for at most so many steps. Gives the
outcomes by offset; a failure ends the scan. -/
def scanFrom (engine : Engine σ) (query : Query) (node : NodeId) (priority : Priority) :
    Nat → Session σ → List (Nat × Except Failure Outcome) × Session σ
  | 0, session => ([], session)
  | steps + 1, session =>
    if query.offset < query.line.length then
      match (engine.first query node priority).run.run session with
      | (.error failure, session) => ([(query.offset, .error failure)], session)
      | (.ok outcome, session) =>
        let next := { query with offset := nextOffset query.offset outcome }
        let (others, session) := scanFrom engine next node priority steps session
        ((query.offset, .ok outcome) :: others, session)
    else
      ([], session)

/-- Searches on and on from the offset to the end of the line. -/
def scan (engine : Engine σ) (query : Query) (node : NodeId) (priority : Priority)
    (session : Session σ) : List (Nat × Except Failure Outcome) × Session σ :=
  engine.scanFrom query node priority query.line.length session

end GrammarSearch.Engine
