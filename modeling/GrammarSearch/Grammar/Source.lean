import GrammarSearch.Failure
import GrammarSearch.Json.Values

/-!
# Grammars as they are written

A grammar is a JSON object of rules. The shape of a rule decides what it is: a `match`, a `begin`
and `end`, an `include` of another rule, or a mere container of `patterns`. Captures and injections
are kept in the order of their keys, repositories in the order in which they are written.
-/

namespace GrammarSearch

/-- A capture group as written: the scope name it assigns, if any. -/
structure CaptureSource where
  name : Option String := none
deriving DecidableEq, Repr, Inhabited

/-- A rule as written. -/
structure RuleSource where
  name : Option String := none
  contentName : Option String := none
  matchPattern : Option String := none
  beginPattern : Option String := none
  /-- May refer to groups of the begin pattern. -/
  endPattern : Option String := none
  /-- Used for the begin and the end pattern where they have no captures of their own. -/
  captures : Table CaptureSource := []
  beginCaptures : Table CaptureSource := []
  endCaptures : Table CaptureSource := []
  patterns : List RuleSource := []
  /-- `#name` is an entry of the innermost repository that has it, `$self` and `$base` are the root
  of the grammar, `scope` is the root of another grammar and `scope#name` an entry of its
  repository. -/
  includes : Option String := none
  repository : List (String × RuleSource) := []
deriving Inhabited

namespace RuleSource

mutual

/-- Decides field by field whether two rules are the same. -/
def decEq : (first second : RuleSource) → Decidable (first = second)
  | ⟨name, contentName, matchPattern, beginPattern, endPattern, captures, beginCaptures,
      endCaptures, patterns, includes, repository⟩,
    ⟨name', contentName', matchPattern', beginPattern', endPattern', captures', beginCaptures',
      endCaptures', patterns', includes', repository'⟩ =>
    have := decEqRules patterns patterns'
    have := decEqEntries repository repository'
    decidable_of_iff
      (name = name' ∧ contentName = contentName' ∧ matchPattern = matchPattern' ∧
        beginPattern = beginPattern' ∧ endPattern = endPattern' ∧ captures = captures' ∧
        beginCaptures = beginCaptures' ∧ endCaptures = endCaptures' ∧ patterns = patterns' ∧
        includes = includes' ∧ repository = repository') (by rw [RuleSource.mk.injEq])

/-- Decides one after another whether two lists have the same rules. -/
def decEqRules : (first second : List RuleSource) → Decidable (first = second)
  | [], [] => .isTrue rfl
  | [], _ :: _ => .isFalse nofun
  | _ :: _, [] => .isFalse nofun
  | rule :: rest, rule' :: rest' =>
    have := decEq rule rule'
    have := decEqRules rest rest'
    decidable_of_iff (rule = rule' ∧ rest = rest') (by rw [List.cons.injEq])

/-- Decides one after another whether two repositories have the same entries. -/
def decEqEntries : (first second : List (String × RuleSource)) → Decidable (first = second)
  | [], [] => .isTrue rfl
  | [], _ :: _ => .isFalse nofun
  | _ :: _, [] => .isFalse nofun
  | (name, rule) :: rest, (name', rule') :: rest' =>
    have := decEq rule rule'
    have := decEqEntries rest rest'
    decidable_of_iff ((name = name' ∧ rule = rule') ∧ rest = rest')
      (by rw [List.cons.injEq, Prod.mk.injEq])

end

instance : DecidableEq RuleSource := decEq

end RuleSource

/-- A grammar as written. -/
structure GrammarSource where
  name : String := ""
  scopeName : String := ""
  patterns : List RuleSource := []
  repository : Table RuleSource := []
  /-- Rules by the selector of where they are injected into this grammar. -/
  injections : Table RuleSource := []
  /-- Where this grammar is injected into the grammars of `injectTo`. -/
  injectionSelector : Option String := none
  injectTo : List String := []
deriving DecidableEq, Inhabited

open Json (Reader RecordField field)

/-- A table in the order of its keys. -/
def sortedTable {α : Type} (levels : Nat) (item : Reader α) : Reader (Table α) := fun input => do
  let (entries, rest) ← Json.table levels item input
  .ok (entries.sorted, rest)

namespace CaptureSource

/-- Reads a capture group. -/
def reader (levels : Nat) : Reader CaptureSource :=
  Json.record levels [field "name" Json.optionalText fun name capture => { capture with name }] {}

end CaptureSource

namespace RuleSource

/-- The fields of a rule, with so many levels left inside it and a reader for the rules that stand
in its lists and tables. -/
def fields (levels : Nat) (rule : Reader RuleSource) : List (RecordField RuleSource) :=
  let captures := sortedTable levels (CaptureSource.reader (levels - 1))
  [field "name" Json.optionalText fun name source => { source with name },
    field "contentName" Json.optionalText fun contentName source => { source with contentName },
    field "match" Json.optionalText fun matchPattern source => { source with matchPattern },
    field "begin" Json.optionalText fun beginPattern source => { source with beginPattern },
    field "end" Json.optionalText fun endPattern source => { source with endPattern },
    field "captures" captures fun captures source => { source with captures },
    field "beginCaptures" captures fun beginCaptures source => { source with beginCaptures },
    field "endCaptures" captures fun endCaptures source => { source with endCaptures },
    field "patterns" (Json.list levels rule) fun patterns source => { source with patterns },
    field "include" Json.optionalText fun includes source => { source with includes },
    field "repository" (Json.table levels rule) fun repository source => { source with repository }]

/-- Reads a rule. A rule inside it is two levels further in. -/
def reader : (levels : Nat) → Reader RuleSource
  | 0 => Json.record 0 [] {}
  | 1 => Json.record 1 (fields 0 fun _ => .error .malformed) {}
  | levels + 2 => Json.record (levels + 2) (fields (levels + 1) (reader levels)) {}

end RuleSource

namespace GrammarSource

/-- The fields of a grammar. -/
def fields : List (RecordField GrammarSource) :=
  let levels := Json.maxLevels - 1
  let rule := RuleSource.reader (levels - 1)
  [field "name" Json.text fun name source => { source with name },
    field "scopeName" Json.text fun scopeName source => { source with scopeName },
    field "patterns" (Json.list levels rule) fun patterns source => { source with patterns },
    field "repository" (Json.table levels rule) fun repository source => { source with repository },
    field "injections" (sortedTable levels rule)
      fun injections source => { source with injections },
    field "injectionSelector" Json.optionalText
      fun injectionSelector source => { source with injectionSelector },
    field "injectTo" (Json.list levels Json.text) fun injectTo source => { source with injectTo }]

/-- Reads a grammar from the bytes of a JSON text. -/
def ofBytes (bytes : Json.Bytes) : Except Json.Fault GrammarSource :=
  Json.readWhole (Json.record Json.maxLevels fields {}) bytes

/-- Reads a grammar from a JSON text. -/
def ofJson (text : String) : Except Json.Fault GrammarSource :=
  ofBytes text.toUTF8.toList

end GrammarSource

/-- A grammar as it is handed over to be added. -/
inductive GrammarForm where
  /-- A grammar that is read already. -/
  | source (source : GrammarSource)
  /-- A JSON text. -/
  | json (text : String)
  /-- A file with these contents, or one that does not exist. -/
  | file (contents : Option Json.Bytes)

namespace GrammarForm

/-- The grammar handed over. -/
def read : GrammarForm → Except Failure GrammarSource
  | source grammar => .ok grammar
  | json text => (GrammarSource.ofJson text).mapError .json
  | file none => .error .missingFile
  | file (some bytes) => (GrammarSource.ofBytes bytes).mapError .json

end GrammarForm

end GrammarSearch
