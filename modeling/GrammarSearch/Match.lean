import GrammarSearch.Text.Line

/-!
# Matches

A match lists the spans of its groups in bytes, the whole match first. A pattern that matched
nothing gives a match without groups, and an optional group that took no part has the span `0..0`.

Where a group is named by its number, the number is written in ASCII digits and fits a machine word
of 64 bits.
-/

namespace GrammarSearch

/-- A range of byte offsets; a reversed one is empty. -/
structure Span where
  start : Nat
  stop : Nat
deriving DecidableEq, Repr, Inhabited

namespace Span

/-- Whether nothing lies in the span. -/
def isEmpty (span : Span) : Bool :=
  decide (span.stop ≤ span.start)

end Span

/-- The outcome of one pattern on one text: the spans of the groups, the whole match first. -/
structure Match where
  groups : List Span
deriving DecidableEq, Repr, Inhabited

namespace Match

/-- The match of a pattern that matched nothing. -/
def missing : Match :=
  ⟨[]⟩

/-- Whether the pattern matched. -/
def found (hit : Match) : Bool :=
  !hit.groups.isEmpty

/-- The number of groups, the whole match included. -/
def count (hit : Match) : Nat :=
  hit.groups.length

/-- The span of a group. -/
def span? (hit : Match) (group : Nat) : Option Span :=
  hit.groups[group]?

/-- Where the whole match starts. -/
def start? (hit : Match) : Option Nat :=
  hit.groups.head?.map (·.start)

/-- Whether the whole match has no text; a missing match has none. -/
def isEmpty (hit : Match) : Bool :=
  match hit.groups with
  | [] => true
  | whole :: _ => whole.isEmpty

/-- The text of a group in the text that was searched. -/
def text? (hit : Match) (group : Nat) (text : List Char) : Option (List Char) :=
  (hit.span? group).bind fun span => Text.slice? text span.start span.stop

@[simp] theorem found_missing : missing.found = false := rfl

@[simp] theorem start?_missing : missing.start? = none := rfl

/-- A match has a start exactly when it was found. -/
theorem start?_isSome (hit : Match) : hit.start?.isSome = hit.found := by
  obtain ⟨groups⟩ := hit
  cases groups <;> rfl

end Match

namespace Text

/-- The number of values of a machine word. -/
def wordSize : Nat := Nat.pow 2 64

/-- The value of a run of ASCII digits, read in base ten. -/
def digitsValue (digits : List Char) : Nat :=
  digits.foldl (fun value c => value * 10 + (c.toNat - '0'.toNat)) 0

/-- The index that a text of ASCII digits denotes, if it fits a machine word. -/
def index? (text : List Char) : Option Nat :=
  if text ≠ [] ∧ text.all Char.isDigit ∧ digitsValue text < wordSize then
    some (digitsValue text)
  else
    none

/-- The index that a text denotes which may have one `+` in front of its digits. -/
def signedIndex? : List Char → Option Nat
  | '+' :: digits => index? digits
  | digits => index? digits

end Text

end GrammarSearch
