import GrammarSearch.Text.Bytes

/-!
# Lines with an identity

A line is a text that the host hands in again and again while it works on it. What is remembered
about a line is remembered under its identity, not under its text: two lines of equal text are two
lines. Identities are not bounded, so a supply of them never comes round to one that is taken.
-/

namespace GrammarSearch

/-- A text under the identity it was handed in with. -/
structure Line where
  id : Nat
  text : String
deriving DecidableEq, Repr, Inhabited

namespace Line

/-- Lines are the same by identity, whatever their texts. -/
def same (a b : Line) : Bool :=
  a.id == b.id

/-- The characters of the line. -/
def chars (line : Line) : List Char :=
  line.text.toList

/-- The length of the line in bytes. -/
def length (line : Line) : Nat :=
  Text.byteLength line.chars

/-- The text between two byte offsets, unless they are reversed, out of bounds or inside a
character. -/
def slice? (line : Line) (start stop : Nat) : Option String :=
  (Text.slice? line.chars start stop).map String.ofList

end Line

/-- The identities already given to lines are those below `next`. -/
structure LineSupply where
  next : Nat := 0

namespace LineSupply

/-- A line with an identity that no line of this supply has yet. -/
def line (supply : LineSupply) (text : String) : Line × LineSupply :=
  (⟨supply.next, text⟩, ⟨supply.next + 1⟩)

/-- A line for each text, in order. -/
def lines (supply : LineSupply) : List String → List Line × LineSupply
  | [] => ([], supply)
  | text :: rest =>
    let (first, supply) := supply.line text
    let (others, supply) := supply.lines rest
    (first :: others, supply)

end LineSupply

end GrammarSearch
