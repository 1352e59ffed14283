/-!
# Repetition

How often something is repeated, and whether more repetitions are tried first. A quantifier that
stands on a quantified expression is merged with the one below it where a single one, or a simpler
pair, says the same: `(?:a*)?` is `a*`.
-/

namespace GrammarSearch.Pattern

/-- A number of repetitions, without an upper bound if `most` is missing. -/
structure Repeat where
  least : Nat
  most : Option Nat
  /-- Whether more repetitions are tried before fewer. -/
  greedy : Bool := true
deriving DecidableEq, Repr, Inhabited

namespace Repeat

/-- Repetition that is none: exactly once. -/
def isOnce (count : Repeat) : Bool :=
  count.least == 1 && count.most == some 1

/-- Whether the number of repetitions is fixed. -/
def isFixed (count : Repeat) : Bool :=
  count.most == some count.least

/-- The three short forms of quantifiers. -/
inductive Form where
  /-- At most once. -/
  | optional
  /-- Any number of times. -/
  | star
  /-- At least once. -/
  | plus
deriving DecidableEq, Repr, Inhabited

/-- The short form of a quantifier, however it is written. -/
def form? (count : Repeat) : Option Form :=
  match count.least, count.most with
  | 0, some 1 => some .optional
  | 0, none => some .star
  | 1, none => some .plus
  | _, _ => none

/-- The quantifier of a short form. -/
def ofForm : Form → Bool → Repeat
  | .optional, greedy => ⟨0, some 1, greedy⟩
  | .star, greedy => ⟨0, none, greedy⟩
  | .plus, greedy => ⟨1, none, greedy⟩

/-- A quantifier on a quantifier, merged. -/
inductive Stack where
  | one (count : Repeat)
  | two (outer inner : Repeat)
deriving DecidableEq, Repr, Inhabited

/-- Any number of times, greedily. -/
def star : Repeat := ofForm .star true

/-- Merges short forms, a greedy inner one first. -/
def mergeForms (outer inner : Repeat) : Form → Bool → Form → Bool → Stack
  | .optional, true, .optional, true => .one inner
  | .optional, true, .optional, false => .one outer
  | .optional, true, .star, greedy => .one (ofForm .star greedy)
  | .optional, true, .plus, true => .one star
  | .optional, true, .plus, false => .two outer inner
  | .star, true, .optional, false => .two (ofForm .optional false) (ofForm .plus true)
  | .star, true, .star, false => .two (ofForm .optional false) (ofForm .plus true)
  | .star, true, _, _ => .one inner
  | .plus, true, .optional, true => .one star
  | .plus, true, .optional, false => .two outer inner
  | .plus, true, .star, true => .one star
  | .plus, true, .star, false => .two (ofForm .optional false) (ofForm .plus true)
  | .plus, true, .plus, _ => .one inner
  | .optional, false, .optional, _ => .one inner
  | .optional, false, _, _ => .one (ofForm .star false)
  | .star, false, _, _ => .one inner
  | .plus, false, .optional, true => .two outer inner
  | .plus, false, .star, true => .two (ofForm .optional true) (ofForm .plus false)
  | .plus, false, .plus, _ => .one inner
  | .plus, false, _, false => .one (ofForm .star false)

/-- A greedy bound on repetitions that are unbounded themselves asks for no more than the least
number of them. -/
def tightened (outer inner : Repeat) : Repeat :=
  match outer.form?, inner.form?, outer.most with
  | none, some form, some most =>
    if outer.greedy ∧ inner.greedy ∧ form ≠ .optional ∧ 1 < most then
      { outer with most := some (max 1 outer.least) }
    else
      outer
  | _, _, _ => outer

/-- Merges a quantifier with the one that it stands on. -/
def merge (outer inner : Repeat) : Stack :=
  let outer := outer.tightened inner
  match inner.form?, outer.form? with
  | some innerForm, some outerForm =>
    mergeForms outer inner innerForm inner.greedy outerForm outer.greedy
  | _, _ =>
    if outer.isFixed ∧ inner.isFixed then
      .one ⟨outer.least * inner.least, some (outer.least * inner.least), outer.greedy⟩
    else
      .two outer inner

end Repeat

end GrammarSearch.Pattern
