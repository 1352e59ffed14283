import GrammarSearch.Json.Values
import GrammarSearch.Pattern.Search
import GrammarSearch.Search.Memo
import GrammarSearch.Search.Outcome
import GrammarSearch.Weigher

/-!
# Engines and sessions

An engine holds what does not change while lines are searched: the tree, the weigher, the dialect of
patterns and the options, which say how much is remembered, how deep a search goes, and whether it
stops early. A session holds what does: remembered answers, remembered end patterns, the weigher's
state and the cancelled tokens. What a search did to its session stays done also when it fails.
-/

namespace GrammarSearch

/-! ## Options -/

/-- The options of a search engine. -/
structure SearchOptions where
  /-- How many answers are remembered. -/
  cacheCapacity : Nat := 32768
  /-- How many end patterns are remembered. -/
  endPatternCacheCapacity : Nat := 1024
  /-- How many rules a search goes through inside each other, the first one not counted. -/
  maxDepth : Nat := 256
  /-- Whether a search stops where no later rule can win. -/
  earlyExit : Bool := true
deriving DecidableEq, Repr, Inhabited

namespace SearchOptions

/-- The fields of options in a JSON text. -/
def fields : List (Json.RecordField SearchOptions) :=
  let count := Json.naturalBelow Json.wordSize
  [Json.field "cache_capacity" count fun cacheCapacity options => { options with cacheCapacity },
    Json.field "end_pattern_cache_capacity" count
      fun endPatternCacheCapacity options => { options with endPatternCacheCapacity },
    Json.field "max_depth" count fun maxDepth options => { options with maxDepth },
    Json.field "early_exit" Json.boolean fun earlyExit options => { options with earlyExit }]

/-- Reads options from a JSON text. -/
def ofJson (text : String) : Except Json.Fault SearchOptions :=
  Json.readWhole (Json.record Json.maxLevels fields {}) text.toUTF8.toList

/-- The options in words. -/
def describe (options : SearchOptions) : String :=
  "MatcherOptions \x7b cache_capacity: " ++ toString options.cacheCapacity ++
    ", end_pattern_cache_capacity: " ++ toString options.endPatternCacheCapacity ++
    ", max_depth: " ++ toString options.maxDepth ++
    ", early_exit: " ++ (if options.earlyExit then "true" else "false") ++ " \x7d"

end SearchOptions

/-! ## Engines -/

/-- A tree to be searched, with the weigher for its injections and the dialect of its patterns. -/
structure Engine (σ : Type) where
  tree : Tree
  weigher : Weigher σ
  options : SearchOptions := {}
  dialect : Pattern.Dialect := .standard

/-- What answers are remembered under: a rule, a line by identity, and the circumstances. -/
structure SearchKey where
  node : NodeId
  line : Nat
  offset : Nat
  priority : Priority
  scope : String
deriving DecidableEq, Repr, Inhabited

/-- What changes while lines are searched. -/
structure Session (σ : Type) where
  /-- The answers of searches. -/
  memo : Memo SearchKey Outcome
  /-- End patterns with their references resolved, by source. -/
  endPatterns : Shelf String Pattern
  /-- The state of the weigher. -/
  weighing : σ
  cancelled : Cancellations := {}

/-- A computation that may fail and that changes the session in either case. -/
abbrev Search (σ : Type) := ExceptT Failure (StateM (Session σ))

/-- What stays the same for every rule that one search visits. -/
structure Query where
  line : Line
  offset : Nat
  /-- The scope path open at the offset. -/
  scope : String
  token : CancelToken := default
deriving Repr, Inhabited

namespace Query

/-- The key of the answer for a rule. -/
def key (query : Query) (node : NodeId) (priority : Priority) : SearchKey where
  node := node
  line := query.line.id
  offset := query.offset
  priority := priority
  scope := query.scope

end Query

namespace Search

variable {σ α : Type}

/-- A value or failure that does not depend on the session. -/
def ofExcept (outcome : Except Failure α) : Search σ α :=
  ExceptT.mk (pure outcome)

/-- Fails if a token is cancelled. -/
def checkToken (token : CancelToken) : Search σ Unit := do
  let session ← get
  if session.cancelled.holds token then
    throw .cancelled

/-- Answers from the memo of the session, or works the answer out and keeps it. -/
def remember (key : SearchKey) (compute : Search σ Outcome) : Search σ Outcome :=
  ExceptT.mk <| Memo.fetch Session.memo (fun session memo => { session with memo }) key compute.run

end Search

namespace Engine

variable {σ : Type}

/-- A session in which nothing happened yet. -/
def newSession (engine : Engine σ) : Session σ where
  memo := { capacity := engine.options.cacheCapacity }
  endPatterns := { capacity := engine.options.endPatternCacheCapacity }
  weighing := engine.weigher.initial

/-- Asks the weigher about a selector. -/
def weigh (engine : Engine σ) (selector scope : String) : Search σ Weight := do
  let session ← get
  let reply := engine.weigher.ask selector scope session.weighing
  set { session with
    weighing := reply.state
    cancelled := session.cancelled.cancelAll reply.cancelled }
  return reply.weight

/-- The pattern of a source, remembered in the session. -/
def endPattern (source : String) : Search σ Pattern := do
  let session ← get
  match session.endPatterns.find? source with
  | some pattern => return pattern
  | none =>
    set { session with endPatterns := session.endPatterns.put source ⟨source⟩ }
    return ⟨source⟩

/-- Forgets every answer and every end pattern. -/
def clear (session : Session σ) : Session σ :=
  { session with
    memo := session.memo.clear
    endPatterns := session.endPatterns.clear }

/-- The engine in words, with the number of answers remembered. -/
def describe (engine : Engine σ) (session : Session σ) : String :=
  "MatchEngine \x7b nodes: " ++ toString engine.tree.size ++ ", cache: " ++ session.memo.describe ++
    ", options: " ++ engine.options.describe ++ " \x7d"

end Engine

end GrammarSearch
