import GrammarSearch.Pattern.Settling

/-!
# What a pattern leads with

What is known about every match of a pattern before it is tried: how long it is, which conditions
hold at its start and end, and a text or a set of first bytes that occurs some way after its start.
A search is guided by the best of these clues, where a longer text of rarer characters counts for
more, and one whose distance from the start is known more exactly.

A pattern that starts with any number of dots is special: if it does not match at one place of a
line, it does not at the next one either. What stands in front of the dots without taking text is
not considered in this.
-/

namespace GrammarSearch.Pattern

/-! ## Clues -/

/-- A condition at the start or end of all matches that guides a search. -/
inductive Mark where
  /-- The start of the text. -/
  | textStart
  /-- Where the search began. -/
  | searchStart
  /-- Any number of dots, which do not match a line feed. -/
  | lineDots
  /-- Any number of dots, which match a line feed. -/
  | textDots
  /-- Something is looked for behind a place. -/
  | lookBehind
  /-- The end of the text. -/
  | textEnd
  /-- The end of the text, or before a line feed that ends it. -/
  | lastLineEnd
  /-- Something must not follow. -/
  | lookAheadNot
deriving DecidableEq, Repr, Inhabited

/-- A text that occurs in every match, a known distance after its start. -/
structure Needle where
  chars : List Char := []
  /-- Whether the text goes on to the end of the expression. -/
  toEnd : Bool := false
  distance : Extent := .zero
deriving DecidableEq, Repr, Inhabited

/-- Bytes one of which is the first of a character of every match, a known distance after its
start. -/
structure FirstBytes where
  bytes : List Nat := []
  distance : Extent := .zero
deriving DecidableEq, Repr, Inhabited

/-- What is known about the matches of an expression. -/
structure Lead where
  extent : Extent := .zero
  starts : List Mark := []
  ends : List Mark := []
  /-- A text at the start. -/
  edge : Needle := {}
  /-- A text further in. -/
  inner : Needle := {}
  /-- A text that was looked for ahead. -/
  ahead : Needle := {}
  first : FirstBytes := {}
deriving DecidableEq, Repr, Inhabited

/-- The first byte of a character in UTF-8. -/
def leadByte (c : Char) : Nat :=
  let code := c.toNat
  if code < 0x80 then code
  else if code < 0x800 then 0xC0 + code / 0x40
  else if code < 0x10000 then 0xE0 + code / 0x1000
  else 0xF0 + code / 0x40000

/-! ## The worth of clues -/

/-- How common a byte is. -/
def commonness (byte : Nat) : Nat :=
  if 0x80 ≤ byte then 4
  else
    let c := Char.ofNat byte
    if c = '\x00' then 5
    else if c = '\t' ∨ c = '\n' ∨ c = '\r' then 10
    else if c < ' ' ∨ c = '\x7f' then 1
    else if c = ' ' then 12
    else if c = '"' ∨ c = 'E' ∨ c = 'e' then 7
    else if c.isAlphanum ∨ c = '\\' then 6
    else if c < ')' then 4
    else 5

/-- The worth of a distance: the more exactly it is known, the more. -/
def distanceWorth (distance : Extent) : Nat :=
  match distance.most with
  | none => 0
  | some most =>
    let count := most - distance.least + 1
    if count ≤ 100 then (2000 + count) / (2 * count) else 1

/-- Whether another clue is better than the one at hand, each with its worth: by the worth and the
distance, then by a shorter distance. -/
def isBetter (worth : Nat) (distance : Extent) (otherWorth : Nat) (otherDistance : Extent) : Bool :=
  if otherWorth = 0 then false
  else if worth = 0 then true
  else
    let here := worth * distanceWorth distance
    let there := otherWorth * distanceWorth otherDistance
    here < there || (here == there && otherDistance.least < distance.least)

/-! ## Needles -/

namespace Needle

/-- The greatest length of a needle in bytes. -/
def maxLength : Nat := 24

/-- The length of a needle in bytes. -/
def length (needle : Needle) : Nat :=
  Text.byteLength needle.chars

/-- As many characters of a text as there is room for after another one. -/
def fit (room : Nat) : List Char → List Char
  | [] => []
  | c :: rest => if c.utf8Size ≤ room then c :: fit (room - c.utf8Size) rest else []

/-- The needle of a text. -/
def ofText (chars : List Char) (distance : Extent) : Needle :=
  let fitting := fit (maxLength - 1) chars
  ⟨fitting, fitting == chars, distance⟩

/-- A needle followed by another one. -/
def append (needle other : Needle) : Needle :=
  let fitting := fit (maxLength - needle.length) other.chars
  { needle with
    chars := needle.chars ++ fitting
    toEnd := fitting == other.chars && other.toEnd }

/-- A needle followed by itself, so many times in all. -/
def repeated (needle : Needle) : Nat → Needle
  | 0 | 1 => needle
  | count + 1 => (needle.repeated count).append needle

/-- What two texts start with alike. -/
def common : List Char → List Char → List Char
  | c :: rest, d :: others => if c = d then c :: common rest others else []
  | _, _ => []

/-- What a needle and another one start with alike, if they have the same distance. -/
def join (needle other : Needle) : Needle :=
  if needle.chars = [] ∨ other.chars = [] ∨ needle.distance ≠ other.distance then
    {}
  else
    let chars := common needle.chars other.chars
    { needle with
      chars
      toEnd := needle.toEnd && other.toEnd && chars == needle.chars && chars == other.chars }

/-- The worth of a needle against another one: by its length, or by its first byte if both are
short. -/
def worthAgainst (needle other : Needle) : Nat :=
  if needle.length ≤ 2 ∧ other.length ≤ 2 then
    (other.chars.head?.elim 0 fun c => commonness (leadByte c)) + if 1 < needle.length then 5 else 0
  else
    needle.length

/-- The better of two needles. -/
def better (needle other : Needle) : Needle :=
  if other.chars = [] then needle
  else if needle.chars = [] then other
  else if isBetter (needle.worthAgainst other) needle.distance (other.worthAgainst needle)
      other.distance then
    other
  else
    needle

end Needle

/-! ## First bytes -/

namespace FirstBytes

/-- How common first bytes are together. -/
def commonness (first : FirstBytes) : Nat :=
  first.bytes.foldl (fun total byte => total + Pattern.commonness byte) 0

/-- First bytes or others. -/
def join (first other : FirstBytes) : FirstBytes :=
  if first.bytes = [] ∨ other.bytes = [] ∨
      first.distance.most.any (fun most => decide (most < other.distance.least)) then
    {}
  else
    ⟨first.bytes ++ other.bytes.filter (!first.bytes.contains ·),
      first.distance.join other.distance⟩

/-- The better of two sets of first bytes. -/
def better (first other : FirstBytes) : FirstBytes :=
  if other.bytes = [] then first
  else if first.bytes = [] then other
  else if isBetter (Nat.pow 2 15 / first.commonness) first.distance
      (Nat.pow 2 15 / other.commonness) other.distance then
    other
  else
    first

/-- Whether first bytes are better than a needle. -/
def isBetterThan (first : FirstBytes) (needle : Needle) : Bool :=
  first.bytes != [] &&
    isBetter (40 * needle.length) needle.distance (200 / first.commonness) first.distance

end FirstBytes

/-! ## Leads -/

namespace Lead

/-- Nothing is known at a distance. -/
def unknown (distance : Extent) : Lead where
  edge := { distance }
  ahead := { distance }
  first := { distance }

/-- One expression followed by another one. -/
def append (lead other : Lead) : Lead :=
  let takesText := !other.extent.isZero
  let edgeGoesOn := lead.edge.toEnd
  let innerGoesOn := lead.inner.toEnd
  let edge := if takesText then { lead.edge with toEnd := false } else lead.edge
  let inner := if takesText then { lead.inner with toEnd := false } else lead.inner
  let joined := other.edge.chars != []
  let edge' := if joined && edgeGoesOn then edge.append other.edge else edge
  let inner' := if joined && !edgeGoesOn && innerGoesOn then inner.append other.edge else inner
  let rest : Needle := if joined && (edgeGoesOn || innerGoesOn) then {} else other.edge
  let inner' := (inner'.better rest).better other.inner
  let ahead : Needle :=
    match lead.ahead.chars, other.extent.most with
    | [], _ => lead.ahead
    | _, none => lead.ahead
    | chars, some most => { lead.ahead with chars := Needle.fit most chars }
  let found := lead.ahead.chars != [] && takesText
  let atStart := lead.ahead.distance.isZero
  { extent := lead.extent.add other.extent
    starts := lead.starts ++ if lead.extent.isZero then other.starts else []
    ends := other.ends ++
      if takesText then lead.ends.filter (· == .lookAheadNot) else lead.ends
    edge := if found && atStart then edge'.better ahead else edge'
    inner := if found && !atStart then inner'.better ahead else inner'
    ahead := if lead.ahead.chars != [] then (if takesText then ahead else lead.ahead)
      else if other.ahead.chars != [] then other.ahead else lead.ahead
    first := lead.first.better other.first }

/-- One expression or another one. -/
def join (lead other : Lead) : Lead where
  extent := lead.extent.join other.extent
  starts := lead.starts.filter other.starts.contains
  ends := lead.ends.filter other.ends.contains
  edge := lead.edge.join other.edge
  inner := lead.inner.join other.inner
  ahead := lead.ahead.join other.ahead
  first := lead.first.join other.first

/-- A text at a distance. -/
def ofText (chars : List Char) (distance : Extent) : Lead :=
  { unknown distance with
    extent := .exactly (Text.byteLength chars)
    edge := .ofText chars distance
    first := ⟨(chars.head?.map leadByte).toList, distance⟩ }

/-- A character of a class at a distance. -/
def ofClass (cls : CharClass) (distance : Extent) : Lead :=
  if cls.isAsciiOnly then
    { unknown distance with
      extent := .exactly 1
      first := ⟨cls.asciiMembers.map Char.toNat, distance⟩ }
  else
    { unknown distance with extent := ⟨1, some 4⟩ }

/-- A condition on the place, at a distance. -/
def ofAnchor (anchor : Anchor) (distance : Extent) : Lead :=
  match anchor with
  | .textStart => { unknown distance with starts := [.textStart] }
  | .searchStart => { unknown distance with starts := [.searchStart] }
  | .textEnd => { unknown distance with ends := [.textEnd] }
  | .lastLineEnd => { unknown distance with ends := [.lastLineEnd] }
  | .lineStart | .lineEnd | .wordEdge | .wordInside => unknown distance

/-- Something that is looked for ahead, at a distance. -/
def ofLookAhead (body : Lead) (distance : Extent) : Lead :=
  let found := if body.edge.chars != [] then body.edge else body.inner
  { unknown distance with
    ahead := if found.chars != [] then { found with toEnd := false } else { distance }
    first := if body.first.bytes != [] then body.first else { distance } }

/-- What repeated dots are known for at the start of a pattern. -/
def dotMark (count : Repeat) : Expr → List Mark
  | .any lineFeed =>
    if count.greedy && count.most.isNone then [if lineFeed then .textDots else .lineDots] else []
  | _ => []

/-- Repetitions of a body at a distance. -/
def ofLoop (count : Repeat) (body : Lead) (dots : List Mark) (distance : Extent) : Lead :=
  let once : Lead :=
    if count.least = 0 then
      unknown distance
    else
      let copies := min count.least (Needle.maxLength + 1)
      let edge := if body.edge.toEnd then body.edge.repeated copies else body.edge
      { body with
        edge := if count.isFixed then edge else { edge with toEnd := false }
        inner := { body.inner with toEnd := body.inner.toEnd && count.isFixed && count.least ≤ 1 } }
  { once with
    starts := once.starts ++ if distance.isZero then dots else []
    extent := {
      least := count.least * body.extent.least
      most :=
        match count.most with
        | some most => if most = 0 then some 0 else body.extent.most.map (most * ·)
        | none => if body.extent.isZero then some 0 else none } }

end Lead

namespace Expr

mutual

/-- What an expression leads with at a distance from the start of the pattern. -/
def lead (facts : GroupFacts) : Expr → Extent → Lead
  | text chars _, distance => .ofText chars distance
  | member cls, distance => .ofClass cls distance
  | word _, distance | any _, distance => { Lead.unknown distance with extent := ⟨1, some 4⟩ }
  | anchor place, distance => .ofAnchor place distance
  | seq items, distance => leadOfAll facts items (.unknown distance) distance
  | choice alternatives, distance => leadOfAny facts alternatives distance
  | group index body, distance =>
    let lead := body.lead facts distance
    if facts.references.contains index then
      { lead with starts := lead.starts.filter fun mark => mark != .lineDots && mark != .textDots }
    else
      lead
  | optioned body, distance | atomic _ body, distance => body.lead facts distance
  | reference index ignoreCase, distance =>
    { Lead.unknown distance with extent := facts.byteExtent (reference index ignoreCase) }
  | loop count body, distance =>
    .ofLoop count (body.lead facts distance) (Lead.dotMark count body) distance
  | look false false body, distance => .ofLookAhead (body.lead facts distance) distance
  | look false true _, distance => { Lead.unknown distance with ends := [.lookAheadNot] }
  | look true false _, distance => { Lead.unknown distance with starts := [.lookBehind] }
  | look true true _, distance | never, distance => .unknown distance

/-- What expressions one after another lead with, after one that leads with `lead`. -/
def leadOfAll (facts : GroupFacts) : List Expr → Lead → Extent → Lead
  | [], lead, _ => lead
  | expr :: rest, lead, distance =>
    let next := expr.lead facts distance
    leadOfAll facts rest (lead.append next) (distance.add next.extent)

/-- What expressions to choose from lead with. -/
def leadOfAny (facts : GroupFacts) : List Expr → Extent → Lead
  | [], distance => .unknown distance
  | [expr], distance => expr.lead facts distance
  | expr :: rest, distance => (expr.lead facts distance).join (leadOfAny facts rest distance)

end

end Expr

end GrammarSearch.Pattern
