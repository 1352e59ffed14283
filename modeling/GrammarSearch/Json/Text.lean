import GrammarSearch.Json.Bytes

/-!
# Strings in JSON texts

A string is read after its opening quote. Its bytes have to be UTF-8, which is checked at the
closing quote. An escape of a code point beyond the basic plane is a pair of surrogates, and a
surrogate without its partner is malformed.
-/

namespace GrammarSearch.Json

/-- The value of a hexadecimal digit. -/
def hexValue? (b : UInt8) : Option Nat :=
  if isDigit b then some (b - byte '0').toNat
  else if byte 'a' ≤ b && b ≤ byte 'f' then some ((b - byte 'a').toNat + 10)
  else if byte 'A' ≤ b && b ≤ byte 'F' then some ((b - byte 'A').toNat + 10)
  else none

/-- The number of the four hexadecimal digits at the front of a text. -/
def readHex : Bytes → Except Fault (Nat × Bytes)
  | a :: b :: c :: d :: rest =>
    match hexValue? a, hexValue? b, hexValue? c, hexValue? d with
    | some a, some b, some c, some d => .ok (((a * 16 + b) * 16 + c) * 16 + d, rest)
    | _, _, _, _ => .error .malformed
  | _ => .error .truncated

/-- The text after a byte that has to come next. -/
def skipByte (expected : Char) : Bytes → Except Fault Bytes
  | [] => .error .truncated
  | b :: rest => if b = byte expected then .ok rest else .error .malformed

/-- Whether a code is the first surrogate of a pair. -/
def isLeading (code : Nat) : Bool :=
  0xD800 ≤ code && code < 0xDC00

/-- Whether a code is the second surrogate of a pair. -/
def isTrailing (code : Nat) : Bool :=
  0xDC00 ≤ code && code < 0xE000

/-- The code point of an escape after its `\u`. -/
def readCodePoint (text : Bytes) : Except Fault (Nat × Bytes) := do
  let (code, rest) ← readHex text
  if isTrailing code then
    .error .malformed
  else if isLeading code then do
    let rest ← skipByte '\\' rest
    let rest ← skipByte 'u' rest
    let (second, rest) ← readHex rest
    if isTrailing second then
      .ok (0x10000 + (code - 0xD800) * 0x400 + (second - 0xDC00), rest)
    else
      .error .malformed
  else
    .ok (code, rest)

/-- The character of an escape by one letter. -/
def unescape? (b : UInt8) : Option Char :=
  if b = byte '"' then some '"'
  else if b = byte '\\' then some '\\'
  else if b = byte '/' then some '/'
  else if b = byte 'b' then some '\x08'
  else if b = byte 'f' then some '\x0c'
  else if b = byte 'n' then some '\n'
  else if b = byte 'r' then some '\r'
  else if b = byte 't' then some '\t'
  else none

/-- The character of an escape after its backslash. -/
def readEscape : Bytes → Except Fault (Char × Bytes)
  | [] => .error .truncated
  | b :: rest =>
    if b = byte 'u' then do
      let (code, rest) ← readCodePoint rest
      .ok (Char.ofNat code, rest)
    else
      match unescape? b with
      | some c => .ok (c, rest)
      | none => .error .malformed

/-- The bytes of a string up to its closing quote, escapes replaced. -/
def readContent : Nat → Bytes → Except Fault (Bytes × Bytes)
  | 0, _ => .error .truncated
  | _ + 1, [] => .error .truncated
  | budget + 1, b :: rest =>
    if b = byte '"' then
      .ok ([], rest)
    else if b = byte '\\' then do
      let (c, rest) ← readEscape rest
      let (content, rest) ← readContent budget rest
      .ok (String.utf8EncodeChar c ++ content, rest)
    else if b < byte ' ' then
      .error .malformed
    else do
      let (content, rest) ← readContent budget rest
      .ok (b :: content, rest)

/-- A string after its opening quote. -/
def readText : Reader String := fun text => do
  let (content, rest) ← readContent (text.length + 1) text
  match String.fromUTF8? content.toByteArray with
  | some value => .ok (value, rest)
  | none => .error .malformed

end GrammarSearch.Json
