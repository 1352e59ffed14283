import GrammarSearch.Pattern.Expr
import GrammarSearch.Pattern.Token

/-!
# Reading patterns

The tokens of a pattern are put together left to right, with a frame for every group that is open.
A change of options opens a frame too, which closes with the group around it: `a(?i)b|c` reads as
`a(?i:b|c)`.

Literals beside each other are one text. A quantifier takes the last character of a text that is
written out, and the whole of one that a group encloses; after a quantifier the group no longer
counts. A sequence in a group becomes part of the sequence around it, unless it comes first there.

The syntax is that of `Dialect.standard`, a part of the Oniguruma syntax.
-/

namespace GrammarSearch.Pattern

/-- The options in force at a place. -/
structure Options where
  ignoreCase : Bool := false
  /-- Whether a dot matches a line feed. -/
  dotAll : Bool := false
deriving DecidableEq, Repr, Inhabited

/-- The options after a change. -/
def OptionChange.apply (change : OptionChange) (options : Options) : Options where
  ignoreCase := change.ignoreCase.getD options.ignoreCase
  dotAll := change.dotAll.getD options.dotAll

/-! ## Items -/

/-- The expression read last, which a quantifier would stand on. -/
structure Item where
  expr : Expr
  /-- The text in front of it that was cut off by a quantifier. -/
  front : Option Expr := none
  /-- Whether a group encloses it, so that a quantifier takes all of it. -/
  enclosed : Bool := false
  /-- Whether it is a text that a literal may still continue. -/
  growing : Bool := false
deriving Inhabited

namespace Item

/-- The item as one expression. -/
def whole (item : Item) : Expr :=
  match item.front with
  | some front => .seq [front, item.expr]
  | none => item.expr

/-- The item with a quantifier on it, which is not exactly once. -/
def repeated (item : Item) (count : Repeat) (possessive : Bool) : Except Fault Item :=
  let wrap : Expr → Expr := fun loop => if possessive then .atomic false loop else loop
  match item.expr with
  | .text chars ignoreCase =>
    match chars.getLast? with
    | some last =>
      if item.enclosed || chars.length == 1 then
        .ok { front := item.front, expr := wrap (.loop count item.expr) }
      else
        .ok {
          front := some (.text chars.dropLast ignoreCase)
          expr := wrap (.loop count (.text [last] ignoreCase)) }
    | none => .ok { front := item.front, expr := wrap (.loop count item.expr) }
  | .loop inner body =>
    match count.merge inner with
    | .one merged =>
      if maxProduct < merged.least then
        .error .hugeRepeat
      else
        .ok { front := item.front, expr := wrap (.loop merged body) }
    | .two outer inner => .ok { front := item.front, expr := wrap (.loop outer (.loop inner body)) }
  | expr => .ok { front := item.front, expr := wrap (.loop count expr) }
where
  /-- The greatest count that exact counts may multiply to. -/
  maxProduct : Nat := Nat.pow 2 31 - 1

/-- The item with a quantifier on it. Exactly once adds nothing. -/
def quantified (item : Item) (count : Repeat) (possessive : Bool) : Except Fault Item :=
  if !item.expr.repeatable then
    .error .unrepeatable
  else if count.isOnce then
    .ok { item with enclosed := false, growing := false }
  else
    item.repeated count possessive

end Item

/-! ## Frames -/

/-- What a frame was opened for. -/
inductive FrameKind where
  | whole
  | group (kind : GroupKind)
  /-- The text after a change of options. -/
  | switched
deriving DecidableEq, Repr, Inhabited

/-- An open group: the alternatives read so far, the items of the current one and the item read
last, each latest first. -/
structure Frame where
  kind : FrameKind
  options : Options := {}
  alternatives : List Expr := []
  items : List Expr := []
  latest : Option Item := none
deriving Inhabited

/-- Texts beside each other as one. -/
def joinTexts : List Expr → List Expr
  | .text chars ignoreCase :: rest =>
    match joinTexts rest with
    | .text others sameCase :: rest =>
      if ignoreCase = sameCase then
        .text (chars ++ others) ignoreCase :: rest
      else
        .text chars ignoreCase :: .text others sameCase :: rest
    | rest => .text chars ignoreCase :: rest
  | item :: rest => item :: joinTexts rest
  | [] => []

namespace Frame

/-- The items with the latest one among them. -/
def settled (frame : Frame) : List Expr :=
  match frame.latest, frame.items with
  | none, items => items
  | some item, [] => [item.whole]
  | some item, items =>
    match item.whole with
    | .seq parts => parts.reverse ++ items
    | expr => expr :: items

/-- The alternative that is being read. -/
def alternative (frame : Frame) : Expr :=
  match frame.settled with
  | [] => .empty
  | [item] => item
  | items => .seq (joinTexts items.reverse)

/-- What the frame holds as one expression. -/
def expr (frame : Frame) : Expr :=
  .ofAlternatives (frame.alternative :: frame.alternatives).reverse

/-- The frame with one more item. -/
def push (frame : Frame) (item : Item) : Frame :=
  { frame with items := frame.settled, latest := some item }

/-- The frame with one more expression. -/
def pushExpr (frame : Frame) (expr : Expr) : Frame :=
  frame.push { expr }

/-- The frame with one more literal, which continues a text that is still growing. -/
def pushLiteral (frame : Frame) (c : Char) (coded : Bool) : Frame :=
  let alone : Item :=
    { expr := .text [c] frame.options.ignoreCase, growing := !coded }
  match frame.latest with
  | some { expr := .text chars ignoreCase, growing := true, .. } =>
    if coded then
      frame.push alone
    else
      { frame with latest := some { expr := .text (chars ++ [c]) ignoreCase, growing := true } }
  | _ => frame.push alone

/-- The frame at the start of its next alternative. -/
def nextAlternative (frame : Frame) : Frame :=
  { frame with
    alternatives := frame.alternative :: frame.alternatives
    items := []
    latest := none }

/-- The frame with a quantifier on its latest item. -/
def quantify (frame : Frame) (count : Repeat) (possessive : Bool) : Except Fault Frame :=
  match frame.latest with
  | none => .error .nothingToRepeat
  | some item => do
    let item ← item.quantified count possessive
    .ok { frame with latest := some item }

end Frame

/-- The body of a group as an item. -/
def GroupKind.wrap (body : Expr) : GroupKind → Item
  | capture index => { expr := .group index body }
  | plain => { expr := body, enclosed := true }
  | optioned _ => { expr := .optioned body }
  | atomic => { expr := .atomic false body }
  | look behind negated => { expr := .look behind negated body }

/-- The options inside a group. -/
def GroupKind.options (options : Options) : GroupKind → Options
  | optioned change => change.apply options
  | _ => options

/-- A character class as an expression. One that ignores case also matches the spellings of its
members. -/
def classExpr (cls : CharClass) : Expr :=
  match cls.spellings with
  | [] => .member cls
  | spellings =>
    .choice (.member cls :: spellings.map fun spelling =>
      .seq (spelling.map fun c => .member (.variants c)))

/-! ## Putting tokens together -/

/-- Closes the frames of option changes down to the group around them. -/
def closeSwitched : Frame → List Frame → Frame × List Frame
  | inner, [] => (inner, [])
  | inner, outer :: below =>
    if inner.kind = .switched then
      closeSwitched (outer.pushExpr (.optioned inner.expr)) below
    else
      (inner, outer :: below)

/-- Puts tokens together in the innermost frame and the frames below it. -/
def assemble : Frame → List Frame → List Token → Except Fault Expr
  | inner, below, [] =>
    match closeSwitched inner below with
    | (whole, []) => .ok whole.expr
    | (_, _ :: _) => .error .unclosedGroup
  | inner, below, token :: tokens =>
    match token with
    | .literal c coded => assemble (inner.pushLiteral c coded) below tokens
    | .dot => assemble (inner.pushExpr (.any inner.options.dotAll)) below tokens
    | .set members negated =>
      assemble (inner.pushExpr (classExpr ⟨members, negated, inner.options.ignoreCase⟩)) below
        tokens
    | .word negated => assemble (inner.pushExpr (.word negated)) below tokens
    | .anchor place => assemble (inner.pushExpr (.anchor place)) below tokens
    | .reference index =>
      assemble (inner.pushExpr (.reference index inner.options.ignoreCase)) below tokens
    | .bar => assemble inner.nextAlternative below tokens
    | .skip => assemble inner below tokens
    | .fault fault => .error fault
    | .switch change =>
      assemble { kind := .switched, options := change.apply inner.options } (inner :: below) tokens
    | .opening kind =>
      assemble { kind := .group kind, options := kind.options inner.options } (inner :: below)
        tokens
    | .closing =>
      match closeSwitched inner below with
      | (closed, outer :: below) =>
        match closed.kind with
        | .group kind => assemble (outer.push (kind.wrap closed.expr)) below tokens
        | _ => .error .strayClosing
      | (_, []) => .error .strayClosing
    | .quantifier least most greed => do
      let frame ← inner.quantify ⟨least, most, greed != .reluctant⟩ (greed == .possessive)
      assemble frame below tokens

end GrammarSearch.Pattern
