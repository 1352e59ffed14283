/-!
# JSON texts as bytes

A JSON text is read as a list of bytes from the front, because a file need not be valid UTF-8. A
reader gives the value it read and the bytes after it, or the first problem it met. Of
that problem only the kind is told.
-/

namespace GrammarSearch.Json

/-- The kind of the first problem in a text. -/
inductive Fault where
  /-- The text is no JSON, or goes on after its value. -/
  | malformed
  /-- A value is of the wrong type or out of range, or a field is given twice. -/
  | mismatch
  /-- The text ends too early. -/
  | truncated
deriving DecidableEq, Repr, Inhabited

namespace Fault

/-- The kind in words. -/
def describe : Fault → String
  | malformed => "malformed text"
  | mismatch => "unexpected value"
  | truncated => "unexpected end of text"

end Fault

/-- The bytes of a text that are still to be read. -/
abbrev Bytes := List UInt8

/-- Takes a value from the front of a text. -/
abbrev Reader (α : Type) := Bytes → Except Fault (α × Bytes)

/-- The byte of an ASCII character. -/
def byte (c : Char) : UInt8 :=
  UInt8.ofNat c.toNat

/-- Whether a byte is white space between values. -/
def isSpace (b : UInt8) : Bool :=
  b == byte ' ' || b == byte '\n' || b == byte '\t' || b == byte '\r'

/-- Whether a byte is a decimal digit. -/
def isDigit (b : UInt8) : Bool :=
  byte '0' ≤ b && b ≤ byte '9'

/-- The text from its first byte that is no white space. -/
def skipSpace (text : Bytes) : Bytes :=
  text.dropWhile isSpace

/-- The first byte that is no white space and the text from there on; there has to be one. -/
def peek (text : Bytes) : Except Fault (UInt8 × Bytes) :=
  match skipSpace text with
  | [] => .error .truncated
  | b :: rest => .ok (b, b :: rest)

/-- The text after the given letters, with which it has to start. -/
def skipWord : List Char → Bytes → Except Fault Bytes
  | [], text => .ok text
  | _ :: _, [] => .error .truncated
  | c :: letters, b :: rest => if b = byte c then skipWord letters rest else .error .malformed

/-- The text after white space and the colon between a name and its value. -/
def skipColon (text : Bytes) : Except Fault Bytes := do
  let (b, text) ← peek text
  if b = byte ':' then .ok text.tail else .error .malformed

/-- Nothing but white space may follow a whole value. -/
def finish {α : Type} : α × Bytes → Except Fault α
  | (value, rest) => if skipSpace rest = [] then .ok value else .error .malformed

end GrammarSearch.Json
