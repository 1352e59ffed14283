import GrammarSearch.Text.CharClass
import GrammarSearch.Text.CaseFold

/-!
# Sets of characters

What a character class of a pattern matches. Where case is ignored, a class takes in every character
that folds like one of its members; only then is it complemented.
-/

namespace GrammarSearch.Pattern

/-- Whether a character is a hexadecimal digit of ASCII. -/
def isHexDigit (c : Char) : Bool :=
  c.isDigit || ('a' ≤ c && c ≤ 'f') || ('A' ≤ c && c ≤ 'F')

/-- Whether a character is one of ASCII. -/
def isAscii (c : Char) : Bool :=
  c.toNat < 0x80

/-- The kinds of characters that have an escape of their own. -/
inductive CharKind where
  | word
  | digit
  | blank
  | hexDigit
deriving DecidableEq, Repr, Inhabited

/-- Whether a character is of a kind. -/
def CharKind.holds : CharKind → Char → Bool
  | word => Text.isWord
  | digit => Text.isDigit
  | blank => Text.isBlank
  | hexDigit => isHexDigit

/-- A set of characters. -/
inductive CharSet where
  | empty
  /-- The characters from the first to the last. -/
  | range (first last : Char)
  | kind (kind : CharKind)
  | union (left right : CharSet)
  | inter (left right : CharSet)
  | compl (set : CharSet)
deriving DecidableEq, Repr, Inhabited

namespace CharSet

/-- The set of one character. -/
def single (c : Char) : CharSet :=
  range c c

/-- A set, or all that is not in it. -/
def negatedIf (negated : Bool) (set : CharSet) : CharSet :=
  if negated then compl set else set

/-- Whether a set holds a character. -/
def holds : CharSet → Char → Bool
  | empty, _ => false
  | range first last, c => decide (first ≤ c) && decide (c ≤ last)
  | kind k, c => k.holds c
  | union left right, c => left.holds c || right.holds c
  | inter left right, c => left.holds c && right.holds c
  | compl set, c => !set.holds c

/-- Whether a set is written with characters beyond ASCII, or with a kind or complement that has
some. -/
def beyondAscii : CharSet → Bool
  | empty => false
  | range _ last => !isAscii last
  | kind k => k != .hexDigit
  | union left right => left.beyondAscii || right.beyondAscii
  | inter left right => left.beyondAscii && right.beyondAscii
  | compl _ => true

/-- A single character is in its set and alone there. -/
@[simp] theorem holds_single (c d : Char) : (single c).holds d = decide (d = c) := by
  rw [single, holds, Bool.eq_iff_iff]
  simp only [Bool.and_eq_true, decide_eq_true_eq]
  exact ⟨fun ⟨hLe, hGe⟩ => Char.le_antisymm hGe hLe, fun h => h ▸ ⟨Char.le_refl _, Char.le_refl _⟩⟩

end CharSet

/-- A character class: its members, up to case if that is ignored, or all other characters. -/
structure CharClass where
  members : CharSet
  negated : Bool := false
  ignoreCase : Bool := false
deriving DecidableEq, Repr, Inhabited

namespace CharClass

/-- Whether a character is a member or folds like one. -/
def takesIn (cls : CharClass) (c : Char) : Bool :=
  if cls.ignoreCase then
    (Text.caseVariants c).any cls.members.holds
  else
    cls.members.holds c

/-- Whether a class holds a character. -/
def holds (cls : CharClass) (c : Char) : Bool :=
  cls.takesIn c != cls.negated

/-- Whether a class is known to hold ASCII characters only. The long s and the sign of the kelvin
fold like letters of ASCII. -/
def isAsciiOnly (cls : CharClass) : Bool :=
  !cls.negated && !cls.members.beyondAscii &&
    !(cls.ignoreCase && ['\u017f', '\u212a'].any cls.takesIn)

/-- The ASCII characters that a class holds. -/
def asciiMembers (cls : CharClass) : List Char :=
  ((List.range 0x80).map Char.ofNat).filter cls.holds

/-- The characters that fold like `c`. -/
def variants (c : Char) : CharClass where
  members := .single c
  ignoreCase := true

/-- The spellings of characters that a class holds. A class that ignores case matches these too. -/
def spellings (cls : CharClass) : List (List Char) :=
  if cls.ignoreCase && !cls.negated then
    ((Text.spellings.filter fun entry => cls.takesIn entry.1).map Prod.snd).eraseDups
  else
    []

end CharClass

end GrammarSearch.Pattern
