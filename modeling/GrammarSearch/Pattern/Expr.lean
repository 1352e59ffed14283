import GrammarSearch.Pattern.CharSet
import GrammarSearch.Pattern.Repeat

/-!
# Pattern expressions

The structure of a pattern once it is read: case and line options are settled at each place, groups
have their numbers, and quantifiers stand on what they repeat.

A sequence that is an item of another one is kept apart, and so is a body under options of its own:
what a quantifier can stand on, and how a loop is carried out, depends on it.
-/

namespace GrammarSearch.Pattern

/-- A condition on a place between two characters. -/
inductive Anchor where
  /-- The start of the text. -/
  | textStart
  /-- The end of the text. -/
  | textEnd
  /-- The end of the text, or before a line feed that ends it. -/
  | lastLineEnd
  /-- The start of the text, or after a line feed that does not end it. -/
  | lineStart
  /-- The end of the text, or before a line feed. -/
  | lineEnd
  /-- Between a word character and none. -/
  | wordEdge
  /-- Not between a word character and none. -/
  | wordInside
  /-- Where the search began. -/
  | searchStart
deriving DecidableEq, Repr, Inhabited

/-- A pattern that is read. -/
inductive Expr where
  /-- Characters one after another, up to case if that is ignored. -/
  | text (chars : List Char) (ignoreCase : Bool)
  /-- A character of a class. -/
  | member (cls : CharClass)
  /-- A character like those of words, or any other. -/
  | word (negated : Bool)
  /-- Any character, or any but a line feed. -/
  | any (lineFeed : Bool)
  | anchor (anchor : Anchor)
  /-- Expressions one after another. -/
  | seq (items : List Expr)
  /-- Expressions to choose from, the first preferred. -/
  | choice (alternatives : List Expr)
  /-- A group whose span is kept under a number. -/
  | group (index : Nat) (body : Expr)
  /-- A body under options of its own. -/
  | optioned (body : Expr)
  /-- The text of a group once more. -/
  | reference (index : Nat) (ignoreCase : Bool)
  /-- Repetitions of the body. -/
  | loop (count : Repeat) (body : Expr)
  /-- The first way in which the body matches, and no other; `implied` if what follows shows that no
  other way can succeed. -/
  | atomic (implied : Bool) (body : Expr)
  /-- Whether the body matches from here on, or up to here if `behind`. -/
  | look (behind negated : Bool) (body : Expr)
  /-- No way at all. -/
  | never
deriving Inhabited

namespace Expr

/-- The expression that matches the empty text. -/
def empty : Expr := .text [] false

/-- Expressions one after another, as one. -/
def ofItems : List Expr → Expr
  | [] => empty
  | [item] => item
  | items => seq items

/-- Alternatives as one expression. -/
def ofAlternatives : List Expr → Expr
  | [] => empty
  | [alternative] => alternative
  | alternatives => choice alternatives

mutual

/-- Whether a quantifier can stand on an expression: it can on anything but a condition on the
place, or a choice in which such a condition is one of the alternatives. -/
def repeatable : Expr → Bool
  | anchor _ | look _ _ _ => false
  | choice alternatives => allRepeatable alternatives
  | _ => true

/-- Whether a quantifier can stand on every expression of a list. -/
def allRepeatable : List Expr → Bool
  | [] => true
  | expr :: rest => expr.repeatable && allRepeatable rest

end

mutual

/-- The group numbers that references name, in order. -/
def references : Expr → List Nat
  | reference index _ => [index]
  | seq exprs | choice exprs => referencesIn exprs
  | group _ body | optioned body | loop _ body | atomic _ body | look _ _ body => body.references
  | text _ _ | member _ | word _ | any _ | anchor _ | never => []

/-- The group numbers that references in a list of expressions name. -/
def referencesIn : List Expr → List Nat
  | [] => []
  | expr :: rest => expr.references ++ referencesIn rest

end

mutual

/-- The groups of an expression with their bodies. -/
def groups : Expr → List (Nat × Expr)
  | group index body => (index, body) :: body.groups
  | seq exprs | choice exprs => groupsIn exprs
  | optioned body | loop _ body | atomic _ body | look _ _ body => body.groups
  | text _ _ | member _ | word _ | any _ | anchor _ | reference _ _ | never => []

/-- The groups of a list of expressions. -/
def groupsIn : List Expr → List (Nat × Expr)
  | [] => []
  | expr :: rest => expr.groups ++ groupsIn rest

end

end Expr

end GrammarSearch.Pattern
