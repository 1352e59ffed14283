import GrammarSearch.Failure
import GrammarSearch.Match

/-!
# Patterns of rules

A rule keeps its patterns as they are written. What they mean is up to the dialect that they are
searched for in: it makes a pattern ready, or says why it does not compile, and what is ready finds
the first match in a text from a place on. A pattern that does not compile fails when it is first
searched for, whatever the text and the offset.

All that is asked of every dialect is that it is a function, so that equal searches find equal
matches, and that no match starts before its search.

## Main results

* `Dialect.le_start_of_search_eq_ok`: a match starts at or after the offset of its search.
* `Dialect.exists_of_search_eq_error`: the only failure of a search is a pattern that does not
  compile.
-/

namespace GrammarSearch

/-- A pattern as it is written; patterns are equal when their sources are. -/
structure Pattern where
  source : String
deriving DecidableEq, Repr, Inhabited

namespace Pattern

/-- What a search found: the span of the whole match, and those of the groups that took part. -/
structure Found where
  whole : Span
  groups : List (Option Span)
deriving DecidableEq, Repr, Inhabited

/-- What was found as a match: a group that took no part is at `0..0`. -/
def Found.toMatch (found : Found) : Match :=
  ⟨found.whole :: found.groups.map fun span => span.getD ⟨0, 0⟩⟩

/-- What is found first in a text that is cut where the search begins. What stands before that place
can be looked at, but not matched. -/
abbrev Finder := (before after : List Char) → Option Found

/-- What finders find as matches. -/
def matchOf (found : Option Found) : Match :=
  (found.map Found.toMatch).getD .missing

/-- A language of patterns. -/
structure Dialect where
  /-- Makes a pattern ready, or says why it does not compile. -/
  compile : (source : String) → Except String Finder
  /-- No match starts before its search. -/
  le_start : ∀ {source find before after found}, compile source = .ok find →
    find before after = some found → Text.byteLength before ≤ found.whole.start

namespace Dialect

variable {dialect : Dialect} {pattern : Pattern} {line : Line} {offset : Nat}

/-- The first match in a line at or after an offset; none where the offset is past the end or inside
a character. -/
def search (dialect : Dialect) (pattern : Pattern) (line : Line) (offset : Nat) :
    Except Failure Match :=
  match dialect.compile pattern.source with
  | .ok find =>
    match Text.splitAt? offset line.chars with
    | some (before, after) => .ok (matchOf (find before after))
    | none => .ok .missing
  | .error reason => .error (.invalidPattern pattern.source reason)

/-- A search from a usable offset is one by the finder. -/
theorem search_eq_ok {find : Finder} {before after : List Char}
    (hCompile : dialect.compile pattern.source = .ok find) (hSplit : before ++ after = line.chars) :
    dialect.search pattern line (Text.byteLength before) = .ok (matchOf (find before after)) := by
  rw [search, hCompile, ← hSplit]
  dsimp only
  rw [Text.splitAt?_byteLength]

/-- A match starts at or after the offset of its search. -/
theorem le_start_of_search_eq_ok {hit : Match} {start : Nat}
    (hSearch : dialect.search pattern line offset = .ok hit) (hStart : hit.start? = some start) :
    offset ≤ start := by
  unfold search at hSearch
  split at hSearch
  case h_2 => contradiction
  case h_1 find hCompile =>
    split at hSearch
    case h_2 =>
      obtain rfl := Except.ok.inj hSearch
      contradiction
    case h_1 before after hCut =>
      obtain rfl := Except.ok.inj hSearch
      cases hFound : find before after with
      | none =>
        rw [hFound] at hStart
        contradiction
      | some found =>
        rw [hFound] at hStart
        obtain rfl : found.whole.start = start := Option.some.inj hStart
        rw [← (Text.append_of_splitAt? hCut).2]
        exact dialect.le_start hCompile hFound

/-- The only failure of a search is a pattern that does not compile. -/
theorem exists_of_search_eq_error {failure : Failure}
    (h : dialect.search pattern line offset = .error failure) :
    ∃ reason, failure = .invalidPattern pattern.source reason := by
  unfold search at h
  split at h
  case h_1 =>
    split at h
    · contradiction
    · contradiction
  case h_2 reason _ => exact ⟨reason, (Except.error.inj h).symm⟩

end Dialect

end Pattern

end GrammarSearch
