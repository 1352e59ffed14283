import GrammarSearch.Json.Bytes

/-!
# Numbers in JSON texts

Only natural numbers below `2 ^ 64` have a value here. Every other number, fractions and negative
zero among them, is well formed but of no use, except that a number too great for a double is
malformed.
-/

namespace GrammarSearch.Json

/-- Bounds of significands and of natural numbers. -/
def wordSize : Nat := Nat.pow 2 64

/-- A significand with more digits appended while it stays below `wordSize`, and how many digits
were left out. -/
def appendDigits : Nat → Bytes → Nat × Nat
  | significand, [] => (significand, 0)
  | significand, d :: digits =>
    let longer := significand * 10 + (d - byte '0').toNat
    if longer < wordSize then appendDigits longer digits else (significand, digits.length + 1)

/-- A natural number rounded to 53 significant bits, a tie to even. -/
def roundToDouble (n : Nat) : Nat :=
  if n < Nat.pow 2 53 then
    n
  else
    let unit := Nat.pow 2 (n.log2 - 52)
    let quotient := n / unit
    let twice := 2 * (n % unit)
    if unit < twice ∨ (unit = twice ∧ quotient % 2 = 1) then
      (quotient + 1) * unit
    else
      quotient * unit

/-- Whether a significand times a power of ten has no finite double. -/
def overflows (significand : Nat) (exponent : Int) : Bool :=
  significand ≠ 0 && (308 < exponent || (0 ≤ exponent &&
    Nat.pow 2 1024 ≤
      roundToDouble (roundToDouble significand * roundToDouble (Nat.pow 10 exponent.toNat))))

/-- The digits at the front of a text, at least one, and the text after them. -/
def readDigits (text : Bytes) : Except Fault (Bytes × Bytes) :=
  match text with
  | [] => .error .truncated
  | d :: _ =>
    if isDigit d then
      .ok (text.takeWhile isDigit, text.dropWhile isDigit)
    else
      .error .malformed

/-- The digits of a fraction, if there is one. -/
def readFraction : Bytes → Except Fault (Option Bytes × Bytes)
  | [] => .ok (none, [])
  | b :: rest =>
    if b = byte '.' then do
      let (digits, rest) ← readDigits rest
      .ok (some digits, rest)
    else
      .ok (none, b :: rest)

/-- The power of ten of an exponent, if there is one. -/
def readExponent : Bytes → Except Fault (Option Int × Bytes)
  | [] => .ok (none, [])
  | b :: rest =>
    if b = byte 'e' || b = byte 'E' then do
      let negative := rest.head? == some (byte '-')
      let signed := negative || rest.head? == some (byte '+')
      let (digits, rest) ← readDigits (if signed then rest.tail else rest)
      let size : Nat := digits.foldl (fun size d => size * 10 + (d - byte '0').toNat) 0
      .ok (some (if negative then -size else size), rest)
    else
      .ok (none, b :: rest)

/-- The digits of an integer; a leading zero stands alone. -/
def readInteger (text : Bytes) : Except Fault (Bytes × Bytes) := do
  let (digits, rest) ← readDigits text
  if digits.head? = some (byte '0') ∧ digits ≠ [byte '0'] then
    .error .malformed
  else
    .ok (digits, rest)

/-- A number without its sign: its value if it is a natural number below `wordSize`. -/
def readUnsigned : Reader (Option Nat) := fun text => do
  let (integer, rest) ← readInteger text
  let (fraction, rest) ← readFraction rest
  let (exponent, rest) ← readExponent rest
  let (significand, dropped) := appendDigits 0 integer
  match fraction, exponent, dropped with
  | none, none, 0 => .ok (some significand, rest)
  | _, _, _ =>
    let digits := fraction.getD []
    let (significand, unused) := appendDigits significand digits
    let scale : Int := dropped - (digits.length - unused : Nat) + exponent.getD 0
    if overflows significand scale then .error .malformed else .ok (none, rest)

/-- A number: its value if it is a natural number below `wordSize` without a sign. -/
def readNumber : Reader (Option Nat) := fun text =>
  if text.head? = some (byte '-') then do
    let (_, rest) ← readUnsigned text.tail
    .ok (none, rest)
  else
    readUnsigned text

end GrammarSearch.Json
