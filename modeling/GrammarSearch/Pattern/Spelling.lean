import GrammarSearch.Pattern.Expr

/-!
# Text up to case

Text that is matched up to case is spelled out: each character becomes the class of the characters
that fold like it, and where folding makes one character of several, or several of one, a choice
between all the ways to write them. `ss` is a choice between a sharp s and two letters of either
case.

What is looked for behind a place is spelled out one character for one character, so that its length
stays known.
-/

namespace GrammarSearch.Pattern.Expr

/-- The ways to take one element of each list. -/
def combinations : List (List Char) → List (List Char)
  | [] => [[]]
  | options :: rest => options.flatMap fun c => (combinations rest).map (c :: ·)

/-- The ways to write a folded text one character for one. -/
def writings (folded : List Char) : List (List Char) :=
  combinations (folded.map fun c => c :: Text.unfoldChar c)

/-- A choice between the text itself and other ways to write it. -/
def spelledText (chars : List Char) (others : List (List Char)) : Expr :=
  .choice ((chars :: others.filter (· != chars)).map fun way => .text way false)

/-- A character with the characters that fold like it; `none` if there are no others. -/
def variantsOf? (c : Char) : Option Expr :=
  if (Text.caseVariants c).all (· == c) then none else some (.member (.variants c))

/-- A single character in all its ways; `none` if there is only one. -/
def spelledChar? (c : Char) : Option Expr :=
  match Text.spelling? c with
  | some folded =>
    some (spelledText [c] (writings folded ++ (Text.spelledBy folded).map fun other => [other]))
  | none => variantsOf? c

/-- Characters that fold like a single one, in all their ways; `none` if they do not. -/
def spelledGroup? (chars : List Char) : Option Expr :=
  let folded := chars.map Text.foldChar
  match Text.spelledBy folded with
  | [] => none
  | spelled => some (spelledText chars (spelled.map (fun c => [c]) ++ writings folded))

/-- The characters of a text, each or a few at a time in all their ways, or as they are if there is
only one way. -/
def spelledPieces : List Char → List (Char ⊕ Expr)
  | [] => []
  | [a] => [(spelledChar? a).elim (.inl a) .inr]
  | [a, b] =>
    match spelledGroup? [a, b] with
    | some expr => [.inr expr]
    | none => (spelledChar? a).elim (.inl a) .inr :: spelledPieces [b]
  | a :: b :: c :: rest =>
    match spelledGroup? [a, b, c], spelledGroup? [a, b] with
    | some expr, _ => .inr expr :: spelledPieces rest
    | none, some expr => .inr expr :: spelledPieces (c :: rest)
    | none, none => (spelledChar? a).elim (.inl a) .inr :: spelledPieces (b :: c :: rest)

/-- Pieces with the single characters among them joined to texts. -/
def joinPieces : List (Char ⊕ Expr) → List Expr
  | [] => []
  | .inr expr :: rest => expr :: joinPieces rest
  | .inl c :: rest =>
    match joinPieces rest with
    | .text chars false :: exprs => .text (c :: chars) false :: exprs
    | exprs => .text [c] false :: exprs

/-- A text in all its ways; behind a place, one character for one. -/
def spelled (behind : Bool) (chars : List Char) : Expr :=
  let pieces :=
    if behind then
      chars.map fun c => (variantsOf? c).elim (.inl c) .inr
    else
      spelledPieces chars
  ofItems (joinPieces pieces)

mutual

/-- An expression with its texts up to case spelled out. -/
def spellOut (behind : Bool) : Expr → Expr
  | text chars true => spelled behind chars
  | seq items => .seq (spellOutAll behind items)
  | choice alternatives => .choice (spellOutAll behind alternatives)
  | group index body => .group index (body.spellOut behind)
  | optioned body => .optioned (body.spellOut behind)
  | loop count body => .loop count (body.spellOut behind)
  | atomic implied body => .atomic implied (body.spellOut behind)
  | look back negated body => .look back negated (body.spellOut (behind || back))
  | expr => expr

/-- Expressions with their texts up to case spelled out. -/
def spellOutAll (behind : Bool) : List Expr → List Expr
  | [] => []
  | expr :: rest => expr.spellOut behind :: spellOutAll behind rest

end

end GrammarSearch.Pattern.Expr
