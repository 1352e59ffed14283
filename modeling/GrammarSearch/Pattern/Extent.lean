import GrammarSearch.Pattern.Expr
import GrammarSearch.Text.Bytes

/-!
# How much text an expression takes

Bounds on the length of what an expression matches, in characters or in bytes. The bounds of a
reference are those of its group.
-/

namespace GrammarSearch.Pattern

/-- A range of lengths, without an upper bound if `most` is missing. -/
structure Extent where
  least : Nat
  most : Option Nat
deriving DecidableEq, Repr, Inhabited

namespace Extent

/-- No length at all. -/
def zero : Extent := ⟨0, some 0⟩

/-- A known length. -/
def exactly (length : Nat) : Extent := ⟨length, some length⟩

/-- Whether there is only one length. -/
def isExact (extent : Extent) : Bool :=
  extent.most == some extent.least

/-- Whether nothing can have the extent but the empty text. -/
def isZero (extent : Extent) : Bool :=
  extent.most == some 0

/-- One length after another. -/
def add (first second : Extent) : Extent where
  least := first.least + second.least
  most := first.most.bind fun a => second.most.map fun b => a + b

/-- One length or another. -/
def join (first second : Extent) : Extent where
  least := min first.least second.least
  most := first.most.bind fun a => second.most.map fun b => max a b

/-- A length a number of times. -/
def times (extent : Extent) (count : Repeat) : Extent where
  least := count.least * extent.least
  most := count.most.bind fun n => if n = 0 then some 0 else extent.most.map (n * ·)

end Extent

/-- The extent of an expression, with whether its least length is known to be reached: conditions on
the place may forbid it. -/
structure Width extends Extent where
  reached : Bool := true
deriving DecidableEq, Repr, Inhabited

namespace Width

/-- One width after another. -/
def add (first second : Width) : Width :=
  { first.toExtent.add second.toExtent with reached := first.reached && second.reached }

/-- One width or another. -/
def join (first second : Width) : Width where
  toExtent := first.toExtent.join second.toExtent
  reached :=
    if first.least < second.least then first.reached
    else if second.least < first.least then second.reached
    else first.reached || second.reached

/-- Whether the empty text is known to have the width. -/
def isSurelyEmpty (width : Width) : Bool :=
  width.least == 0 && width.reached

end Width

/-- What lengths are counted in. -/
structure Ruler where
  /-- The length of a character of a text. -/
  char : Char → Nat
  /-- The length of a character that is not known. -/
  someChar : Extent

namespace Ruler

/-- Lengths in characters. -/
def chars : Ruler := ⟨fun _ => 1, .exactly 1⟩

/-- Lengths in bytes. -/
def bytes : Ruler := ⟨Char.utf8Size, ⟨1, some 4⟩⟩

end Ruler

namespace Expr

mutual

/-- The width of an expression, given the extents of groups. -/
def width (ruler : Ruler) (groupExtent : Nat → Extent) : Expr → Width
  | text chars _ => { Extent.exactly (chars.map ruler.char).sum with }
  | member _ | word _ | any _ => { ruler.someChar with }
  | anchor _ | look _ _ _ => { Extent.zero with reached := false }
  | seq items => widthOfAll ruler groupExtent items
  | choice alternatives => widthOfAny ruler groupExtent alternatives
  | group _ body => { body.width ruler groupExtent with reached := false }
  | optioned body | atomic _ body => body.width ruler groupExtent
  | reference index _ => { groupExtent index with reached := false }
  | loop count body =>
    if count.most = some 0 then
      { Extent.zero with }
    else
      let width := body.width ruler groupExtent
      { width.toExtent.times count with reached := width.reached }
  | never => { Extent.zero with }

/-- The width of expressions one after another. -/
def widthOfAll (ruler : Ruler) (groupExtent : Nat → Extent) : List Expr → Width
  | [] => { Extent.zero with }
  | expr :: rest => (expr.width ruler groupExtent).add (widthOfAll ruler groupExtent rest)

/-- The width of expressions to choose from. -/
def widthOfAny (ruler : Ruler) (groupExtent : Nat → Extent) : List Expr → Width
  | [] => { Extent.zero with }
  | [expr] => expr.width ruler groupExtent
  | expr :: rest => (expr.width ruler groupExtent).join (widthOfAny ruler groupExtent rest)

end

/-- The extents of the groups of an expression, in as many rounds: each takes the extents of the
groups it refers to from the round before. -/
def groupExtents (ruler : Ruler) (bodies : List (Nat × Expr)) : Nat → List (Nat × Extent)
  | 0 => []
  | rounds + 1 =>
    let known := groupExtents ruler bodies rounds
    bodies.map fun entry =>
      (entry.1, (entry.2.width ruler fun index => (known.lookup index).getD .zero).toExtent)

end Expr

/-- What is known about the groups of a pattern. -/
structure GroupFacts where
  /-- The numbers of groups that are referred to, as often as they are. -/
  references : List Nat := []
  /-- The lengths of the groups in characters. -/
  chars : List (Nat × Extent) := []
  /-- The lengths of the groups in bytes. -/
  bytes : List (Nat × Extent) := []
deriving Repr, Inhabited

namespace GroupFacts

/-- The facts about the groups of an expression. -/
def ofExpr (expr : Expr) : GroupFacts :=
  match expr.references with
  | [] => {}
  | references => {
      references
      chars := Expr.groupExtents .chars expr.groups (expr.groups.length + 1)
      bytes := Expr.groupExtents .bytes expr.groups (expr.groups.length + 1) }

/-- The width of an expression in characters. -/
def charWidth (facts : GroupFacts) (expr : Expr) : Width :=
  expr.width .chars fun index => (facts.chars.lookup index).getD .zero

/-- The extent of an expression in bytes. -/
def byteExtent (facts : GroupFacts) (expr : Expr) : Extent :=
  (expr.width .bytes fun index => (facts.bytes.lookup index).getD .zero).toExtent

/-- Whether an expression may match the empty text. -/
def mayBeEmpty (facts : GroupFacts) (expr : Expr) : Bool :=
  (facts.byteExtent expr).least == 0

end GroupFacts

end GrammarSearch.Pattern
