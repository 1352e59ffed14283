import GrammarSearch.Pattern.Extent

/-!
# Settled expressions

Before an expression is matched it is settled, which changes no match:

* A short text repeated a known number of times is written out.
* A greedy loop that is followed by what its body cannot start with never has to give anything back,
  and becomes atomic.
* What is looked for behind a place need not start with more repetitions than it has to.
* Looking behind for what the empty text is sure to match always succeeds.
-/

namespace GrammarSearch.Pattern

/-- What the text of an expression starts with. -/
inductive Head where
  | text (chars : List Char)
  | member (cls : CharClass)
  | word (negated : Bool)

namespace Head

/-- Whether a word class holds no member of a class of ASCII characters. -/
def wordExcludes (negated : Bool) (cls : CharClass) : Bool :=
  cls.isAsciiOnly && cls.asciiMembers.all fun c => Text.isWordLike c == negated

/-- Whether no text starts in both ways, as far as it is easily seen. -/
def excludes : Head → Head → Bool
  | text first, text second => !(first.isPrefixOf second || second.isPrefixOf first)
  | text chars, member cls | member cls, text chars => !chars.head?.any cls.holds
  | text chars, word negated | word negated, text chars =>
    chars.head?.all fun c => Text.isWordLike c == negated
  | member first, member second =>
    (first.isAsciiOnly || second.isAsciiOnly) && !first.asciiMembers.any second.holds
  | member cls, word negated | word negated, member cls => wordExcludes negated cls
  | word first, word second => first != second

end Head

namespace Expr

/-- What the text of an expression starts with, if that is a single thing. -/
def head? : Expr → Option Head
  | text [] _ => none
  | text chars _ => some (.text chars)
  | member cls => some (.member cls)
  | word negated => some (.word negated)
  | seq (first :: _) => first.head?
  | group _ body | optioned body | atomic _ body | look false false body => body.head?
  | loop count body => if count.least = 0 then none else body.head?
  | _ => none

/-- Whether an expression is a text or a class. -/
def isPlain : Expr → Bool
  | text chars _ => !chars.isEmpty
  | member _ | word _ | any _ => true
  | _ => false

/-- An expression before `next`, made atomic if it is a loop that has nothing to give back. -/
def sealBefore (next : Expr) : Expr → Expr
  | loop count body =>
    let excluded :=
      match body.head?, next.head? with
      | some first, some second => first.excludes second
      | _, _ => false
    if count.greedy && count.most.isNone && count.least ≤ 1 && body.isPlain && excluded then
      .atomic true (.loop count body)
    else
      .loop count body
  | group index body => .group index (sealBefore next body)
  | expr => expr

/-- The expressions of a sequence, each made atomic if it has nothing to give back. -/
def sealAll : List Expr → List Expr
  | first :: second :: rest => sealBefore second first :: sealAll (second :: rest)
  | exprs => exprs

/-- A loop, written out if its body is a text that is short enough. -/
def writtenOut (count : Repeat) : Expr → Expr
  | text chars false =>
    if count.isFixed && 1 < count.least && count.least ≤ 100 &&
        count.least * Text.byteLength chars ≤ 100 then
      .text (List.replicate count.least chars).flatten false
    else
      .loop count (.text chars false)
  | body => .loop count body

/-- Whether the text of an expression is at hand, so that its repetitions can be left out at the
start of what is looked for behind a place. -/
def isDirect : Expr → Bool
  | text _ _ | member _ | word _ | any _ | reference _ _ => true
  | _ => false

/-- The start of what is looked for behind a place, with the repetitions it needs, and whether
nothing is left of it. -/
def shortened : Expr → Expr × Bool
  | loop count body =>
    if body.isDirect then
      (.loop { count with most := some count.least } body, count.least == 0)
    else
      (.loop count body, false)
  | expr => (expr, false)

/-- A sequence shortened at its start. -/
def shortenAll : List Expr → List Expr
  | [] => []
  | first :: rest =>
    match first.shortened with
    | (expr, true) => expr :: shortenAll rest
    | (expr, false) => expr :: rest

/-- An alternative of what is looked for behind a place, shortened at its start. -/
def shortenedAlternative : Expr → Expr
  | seq items => .seq (shortenAll items)
  | expr => expr.shortened.1

/-- What is looked for behind a place, shortened at its start. -/
def shortenedBehind : Expr → Expr
  | choice alternatives => .choice (alternatives.map shortenedAlternative)
  | expr => expr.shortenedAlternative

/-- Looking behind for an expression; not looking at all if the empty text is sure to match it. -/
def lookBehind (facts : GroupFacts) (negated : Bool) (body : Expr) : Expr :=
  if (facts.charWidth body).isSurelyEmpty then
    if negated then .never else .empty
  else
    .look true negated body

mutual

/-- The settled form of an expression. -/
def settle (facts : GroupFacts) : Expr → Expr
  | seq items => .seq (sealAll (settleAll facts items))
  | choice alternatives => .choice (settleAll facts alternatives)
  | group index body => .group index (body.settle facts)
  | optioned body => .optioned (body.settle facts)
  | loop count body => (body.settle facts).writtenOut count
  | atomic implied body => .atomic implied (body.settle facts)
  | look true negated body => lookBehind facts negated (body.settle facts).shortenedBehind
  | look false negated body => .look false negated (body.settle facts)
  | expr => expr

/-- The settled forms of expressions. -/
def settleAll (facts : GroupFacts) : List Expr → List Expr
  | [] => []
  | expr :: rest => expr.settle facts :: settleAll facts rest

end

end Expr

end GrammarSearch.Pattern
