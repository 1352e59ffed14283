import GrammarSearch.Json.Text

/-!
# Values that are not asked for

The value of an unknown field is passed over. It has to be JSON, but it may be nested to any depth,
hold numbers of any size, bytes that are no UTF-8, and surrogates without a partner.
-/

namespace GrammarSearch.Json

/-- The digits at the front of a text, at least one, and the text after them. -/
def skipDigits (text : Bytes) : Except Fault Bytes :=
  match text with
  | d :: rest => if isDigit d then .ok (rest.dropWhile isDigit) else .error .malformed
  | [] => .error .malformed

/-- The text after a fraction, if there is one. -/
def skipFraction : Bytes → Except Fault Bytes
  | [] => .ok []
  | b :: rest => if b = byte '.' then skipDigits rest else .ok (b :: rest)

/-- The text after an exponent, if there is one. -/
def skipExponent : Bytes → Except Fault Bytes
  | [] => .ok []
  | b :: rest =>
    if b = byte 'e' || b = byte 'E' then
      let signed := rest.head? == some (byte '-') || rest.head? == some (byte '+')
      skipDigits (if signed then rest.tail else rest)
    else
      .ok (b :: rest)

/-- The text after a number without its sign. -/
def skipUnsigned (text : Bytes) : Except Fault Bytes := do
  let rest ← skipDigits text
  if text.head? = some (byte '0') ∧ text.tail ≠ rest then
    .error .malformed
  else do
    let rest ← skipFraction rest
    skipExponent rest

/-- The text after the closing quote of a string. -/
def skipText : Nat → Bytes → Except Fault Bytes
  | 0, _ => .error .truncated
  | _ + 1, [] => .error .truncated
  | budget + 1, b :: rest =>
    if b = byte '"' then
      .ok rest
    else if b = byte '\\' then
      match rest with
      | [] => .error .truncated
      | e :: rest =>
        if e = byte 'u' then do
          let (_, rest) ← readHex rest
          skipText budget rest
        else if (unescape? e).isSome then
          skipText budget rest
        else
          .error .malformed
    else if b < byte ' ' then
      .error .malformed
    else
      skipText budget rest

/-- A bracket that is open. -/
inductive Bracket where
  | array
  | object
deriving DecidableEq, Repr, Inhabited

/-- The byte that closes a bracket. -/
def Bracket.closing : Bracket → UInt8
  | array => byte ']'
  | object => byte '\x7d'

/-- The text after a value that is no array or object and starts with the given byte. -/
def skipScalar (b : UInt8) (rest : Bytes) : Except Fault Bytes :=
  if b = byte 'n' then skipWord ['u', 'l', 'l'] rest
  else if b = byte 't' then skipWord ['r', 'u', 'e'] rest
  else if b = byte 'f' then skipWord ['a', 'l', 's', 'e'] rest
  else if b = byte '-' then skipUnsigned rest
  else if isDigit b then skipUnsigned (b :: rest)
  else if b = byte '"' then skipText (rest.length + 1) rest
  else .error .malformed

/-- The bracket that a byte opens. -/
def Bracket.ofByte? (b : UInt8) : Option Bracket :=
  if b = byte '[' then some array else if b = byte '\x7b' then some object else none

/-- The text after a name in an object and the colon after it. -/
def skipName (text : Bytes) : Except Fault Bytes := do
  let (b, text) ← peek text
  if b = byte '"' then do
    let rest ← skipText text.length text.tail
    skipColon rest
  else
    .error .malformed

mutual

/-- The text after a value within open brackets, and after all those brackets. -/
def skipWithin : Nat → List Bracket → Bytes → Except Fault Bytes
  | 0, _, _ => .error .truncated
  | budget + 1, brackets, text => do
    let (b, text) ← peek text
    match Bracket.ofByte? b with
    | none => do
      let rest ← skipScalar b text.tail
      skipAfter budget brackets rest
    | some bracket => do
      let (next, rest) ← peek text.tail
      if next = bracket.closing then
        skipAfter budget brackets rest.tail
      else
        skipItem budget bracket brackets rest

/-- The text after the next item of the innermost bracket, and after all the open brackets. -/
def skipItem : Nat → Bracket → List Bracket → Bytes → Except Fault Bytes
  | 0, _, _, _ => .error .truncated
  | budget + 1, .array, brackets, text => skipWithin budget (.array :: brackets) text
  | budget + 1, .object, brackets, text => do
    let rest ← skipName text
    skipWithin budget (.object :: brackets) rest

/-- The text after all the open brackets, a value of the innermost one having just ended. -/
def skipAfter : Nat → List Bracket → Bytes → Except Fault Bytes
  | _, [], text => .ok text
  | 0, _, _ => .error .truncated
  | budget + 1, bracket :: brackets, text => do
    let (b, text) ← peek text
    if b = byte ',' then
      skipItem budget bracket brackets text.tail
    else if b = bracket.closing then
      skipAfter budget brackets text.tail
    else
      .error .malformed

end

/-- The text after a value. Every byte is passed over in at most two steps. -/
def skipValue (text : Bytes) : Except Fault Bytes :=
  skipWithin (2 * text.length + 2) [] text

end GrammarSearch.Json
