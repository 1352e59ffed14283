import GrammarSearch.Pattern.Expr

/-!
# Tokens of patterns

A pattern is first cut into tokens, left to right. Cutting stops at the first fault, which becomes
the last token, so that a fault of structure further left is still found first. References to groups
are checked once all groups are known.

A backslash with digits after it refers to a group if its number is at most nine or so many groups
were opened before; otherwise it is an octal code.

Only a part of the Oniguruma syntax is read as what it means there. `Dialect.standard` says which
part that is, and what becomes of the rest.
-/

namespace GrammarSearch.Pattern

/-! ## Faults -/

/-- The faults of patterns. -/
inductive Fault where
  /-- The pattern ends inside a group. -/
  | unclosedGroup
  /-- A closing parenthesis has no opening one. -/
  | strayClosing
  /-- The pattern ends inside a character class. -/
  | unclosedSet
  /-- A character class has no members. -/
  | emptySet
  /-- A range of a character class goes downwards. -/
  | reversedRange
  /-- A range of a character class ends in a class of its own. -/
  | setAsRangeEnd
  /-- A quantifier follows nothing. -/
  | nothingToRepeat
  /-- A quantifier follows something without width. -/
  | unrepeatable
  /-- A quantifier counts too far. -/
  | hugeRepeat
  /-- The pattern ends after a backslash. -/
  | trailingEscape
  /-- The pattern ends within the mark of a group. -/
  | unfinishedGroup
  /-- The mark of a group is unknown. -/
  | unknownOption
  /-- A reference names a group that the pattern does not have. -/
  | missingGroup
deriving DecidableEq, Repr, Inhabited

namespace Fault

/-- The fault in words. -/
def message : Fault → String
  | unclosedGroup => "end pattern with unmatched parenthesis"
  | strayClosing => "unmatched close parenthesis"
  | unclosedSet => "premature end of char-class"
  | emptySet => "empty char-class"
  | reversedRange => "empty range in char class"
  | setAsRangeEnd => "char-class value at end of range"
  | nothingToRepeat => "target of repeat operator is not specified"
  | unrepeatable => "target of repeat operator is invalid"
  | hugeRepeat => "too big number for repeat range"
  | trailingEscape => "end pattern at escape"
  | unfinishedGroup => "end pattern in group"
  | unknownOption => "undefined group option"
  | missingGroup => "invalid backref number/name"

end Fault

/-! ## Kinds of tokens -/

/-- What a quantifier does about the repetitions it has found. -/
inductive Greed where
  /-- As many as possible, then fewer. -/
  | greedy
  /-- As few as possible, then more. -/
  | reluctant
  /-- As many as possible, never fewer. -/
  | possessive
deriving DecidableEq, Repr, Inhabited

/-- Which options a mark turns on or off; those it does not name stay. -/
structure OptionChange where
  ignoreCase : Option Bool := none
  dotAll : Option Bool := none
deriving DecidableEq, Repr, Inhabited

/-- The kinds of groups. -/
inductive GroupKind where
  /-- A group whose span is kept. -/
  | capture (index : Nat)
  /-- A group that only groups. -/
  | plain
  /-- A group under changed options. -/
  | optioned (change : OptionChange)
  | atomic
  | look (behind negated : Bool)
deriving DecidableEq, Repr, Inhabited

/-- A token of a pattern. -/
inductive Token where
  /-- A character that stands for itself; `coded` if it is written by a name or number of its own
  and not joined with literals beside it. -/
  | literal (c : Char) (coded : Bool)
  | dot
  | set (members : CharSet) (negated : Bool)
  /-- A character like those of words, or any other. -/
  | word (negated : Bool)
  | anchor (anchor : Anchor)
  | reference (index : Nat)
  | opening (kind : GroupKind)
  | closing
  /-- A change of options up to the end of the enclosing group. -/
  | switch (change : OptionChange)
  | bar
  | quantifier (least : Nat) (most : Option Nat) (greed : Greed)
  /-- A comment. -/
  | skip
  | fault (fault : Fault)
deriving DecidableEq, Repr, Inhabited

namespace Token

/-! ## Numbers and escapes -/

/-- The greatest count of a quantifier. -/
def maxRepeat : Nat := 100000

/-- The value of digits in a base up to ten. -/
def digitsValue (base : Nat) (digits : List Char) : Nat :=
  digits.foldl (fun value c => value * base + (c.toNat - '0'.toNat)) 0

/-- Whether a character is an octal digit. -/
def isOctal (c : Char) : Bool :=
  '0' ≤ c && c ≤ '7'

/-- The character of the octal digits at the start of a text, at most so many, and what follows. -/
def readOctal (most : Nat) (text : List Char) : Char × List Char :=
  let digits := (text.take most).takeWhile isOctal
  (Char.ofNat (digitsValue 8 digits), text.drop digits.length)

/-- The control character of an escape with this letter. -/
def control? : Char → Option Char
  | 't' => some '\t'
  | 'n' => some '\n'
  | 'r' => some '\r'
  | 'f' => some '\x0c'
  | 'v' => some '\x0b'
  | 'a' => some '\x07'
  | 'e' => some '\x1b'
  | _ => none

/-- The kind of characters of an escape with this letter, and whether it is all but those, as for a
capital. -/
def kind? : Char → Option (CharKind × Bool)
  | 'w' => some (.word, false)
  | 'W' => some (.word, true)
  | 'd' => some (.digit, false)
  | 'D' => some (.digit, true)
  | 's' => some (.blank, false)
  | 'S' => some (.blank, true)
  | 'h' => some (.hexDigit, false)
  | 'H' => some (.hexDigit, true)
  | _ => none

/-- The token of a kind of characters outside brackets. -/
def ofKind : CharKind × Bool → Token
  | (.word, negated) => word negated
  | (kind, negated) => set (.kind kind) negated

/-- The anchor of an escape with this letter. -/
def anchor? : Char → Option Anchor
  | 'A' => some .textStart
  | 'z' => some .textEnd
  | 'Z' => some .lastLineEnd
  | 'b' => some .wordEdge
  | 'B' => some .wordInside
  | 'G' => some .searchStart
  | _ => none

/-- The token of a backslash before a digit: a reference, or the character of an octal code. An
eight or nine that refers to nothing stands for itself. -/
def readNumber (opened : Nat) (c : Char) (rest : List Char) : Token × List Char :=
  let digits := c :: rest.takeWhile Char.isDigit
  let number := digitsValue 10 digits
  if c ≠ '0' ∧ (number ≤ 9 ∨ number ≤ opened) then
    (reference number, rest.drop (digits.length - 1))
  else if isOctal c then
    let (code, rest) := readOctal 3 (c :: rest)
    (literal code true, rest)
  else
    (literal c false, rest)

/-- The token of a backslash and the text after it. -/
def readEscape (opened : Nat) : List Char → Token × List Char
  | [] => (fault .trailingEscape, [])
  | c :: rest =>
    if c.isDigit then
      readNumber opened c rest
    else
      match control? c, kind? c, anchor? c with
      | some code, _, _ => (literal code true, rest)
      | none, some kind, _ => (ofKind kind, rest)
      | none, none, some place => (anchor place, rest)
      | none, none, none => (literal c false, rest)

/-! ## Character classes -/

/-- A member of a character class: a character, or a set of its own. -/
inductive Member where
  | char (c : Char)
  | set (set : CharSet)

/-- The member at the start of a text that is neither a bracket nor a range mark. Digits after a
backslash are an octal code here, and `\b` is the backspace. -/
def readMember : List Char → Except Fault (Member × List Char)
  | [] => .error .unclosedSet
  | '\\' :: [] => .error .trailingEscape
  | '\\' :: c :: rest =>
    if isOctal c then
      let (code, rest) := readOctal 3 (c :: rest)
      .ok (.char code, rest)
    else if c = 'b' then
      .ok (.char '\x08', rest)
    else
      match control? c, kind? c with
      | some code, _ => .ok (.char code, rest)
      | none, some (kind, negated) => .ok (.set (CharSet.negatedIf negated (.kind kind)), rest)
      | none, none => .ok (.char c, rest)
  | c :: rest => .ok (.char c, rest)

/-- A set with the character that was read last, if it starts no range. -/
def withPending (members : CharSet) : Option Char → CharSet
  | some c => .union members (.single c)
  | none => members

mutual

/-- The members of a character class up to its closing bracket, beside those read before. `pending`
is the character read last, which a range may start from. -/
def readMembers : Nat → CharSet → Option Char → List Char → Except Fault (CharSet × List Char)
  | 0, _, _, _ => .error .unclosedSet
  | budget + 1, members, pending, text =>
    match text, pending with
    | ']' :: rest, _ => .ok (withPending members pending, rest)
    | '[' :: rest, _ => do
      let ((nested, negated), rest) ← readSet budget rest
      readMembers budget
        (.union (withPending members pending) (CharSet.negatedIf negated nested)) none rest
    | '&' :: '&' :: rest, _ => do
      let (others, rest) ← readMembers budget .empty none rest
      .ok (.inter (withPending members pending) others, rest)
    | '-' :: rest, none => readMembers budget members (some '-') rest
    | '-' :: rest, some first =>
      match rest with
      | ']' :: _ => readMembers budget (withPending members pending) (some '-') rest
      | '[' :: _ => readMembers budget (withPending members pending) (some '-') rest
      | '&' :: '&' :: _ => readMembers budget (withPending members pending) (some '-') rest
      | _ => do
        match ← readMember rest with
        | (.char last, rest) =>
          if last < first then
            .error .reversedRange
          else
            readMembers budget (.union members (.range first last)) none rest
        | (.set _, _) => .error .setAsRangeEnd
    | _, _ => do
      match ← readMember text with
      | (.char c, rest) => readMembers budget (withPending members pending) (some c) rest
      | (.set other, rest) =>
        readMembers budget (.union (withPending members pending) other) none rest

/-- A character class after its opening bracket: its members, and whether it is all but those. -/
def readSet : Nat → List Char → Except Fault ((CharSet × Bool) × List Char)
  | 0, _ => .error .unclosedSet
  | budget + 1, '^' :: text => do
    let (members, rest) ← readSetBody budget text
    .ok ((members, true), rest)
  | budget + 1, text => do
    let (members, rest) ← readSetBody budget text
    .ok ((members, false), rest)

/-- A character class after its opening bracket and the mark of a complement. A closing bracket that
comes first is a member if there is another one to close the class. -/
def readSetBody : Nat → List Char → Except Fault (CharSet × List Char)
  | 0, _ => .error .unclosedSet
  | budget + 1, ']' :: rest =>
    if rest.contains ']' then readMembers budget .empty (some ']') rest else .error .emptySet
  | budget + 1, text => readMembers budget .empty none text

end

/-! ## Groups -/

/-- The option marks up to a closing parenthesis or a colon, which tell what the group is. -/
def readOptions (change : OptionChange) (on : Bool) : List Char → Token × List Char
  | [] => (fault .unfinishedGroup, [])
  | ')' :: rest => (switch change, rest)
  | ':' :: rest => (opening (.optioned change), rest)
  | '-' :: rest => readOptions change false rest
  | 'i' :: rest => readOptions { change with ignoreCase := some on } on rest
  | 'm' :: rest => readOptions { change with dotAll := some on } on rest
  | _ :: _ => (fault .unknownOption, [])

/-- The end of a comment. -/
def readComment : List Char → Token × List Char
  | [] => (fault .unfinishedGroup, [])
  | ')' :: rest => (skip, rest)
  | '\\' :: _ :: rest => readComment rest
  | _ :: rest => readComment rest

/-- The token of an opening parenthesis and the text after it, with so many groups opened before. -/
def readGroup (opened : Nat) : List Char → Token × List Char
  | '?' :: '#' :: rest => readComment rest
  | '?' :: ':' :: rest => (opening .plain, rest)
  | '?' :: '=' :: rest => (opening (.look false false), rest)
  | '?' :: '!' :: rest => (opening (.look false true), rest)
  | '?' :: '>' :: rest => (opening .atomic, rest)
  | '?' :: '<' :: '=' :: rest => (opening (.look true false), rest)
  | '?' :: '<' :: '!' :: rest => (opening (.look true true), rest)
  | ['?', '<'] => (fault .unclosedGroup, [])
  | '?' :: ')' :: _ => (fault .unknownOption, [])
  | '?' :: rest => readOptions {} true rest
  | rest => (opening (.capture (opened + 1)), rest)

/-! ## Quantifiers -/

/-- A quantifier with the mark after it that makes it reluctant or possessive. -/
def withGreed (least : Nat) (most : Option Nat) : List Char → Token × List Char
  | '?' :: rest => (quantifier least most .reluctant, rest)
  | '+' :: rest => (quantifier least most .possessive, rest)
  | rest => (quantifier least most .greedy, rest)

/-- A counted quantifier: only a question mark changes it, and not where the count is exact. Bounds
in the wrong order are taken the other way round, and possessively. -/
def withBounds (least : Nat) (most : Option Nat) (exact : Bool) (rest : List Char) :
    Token × List Char :=
  match most with
  | some upper =>
    if upper < least then
      (quantifier upper (some least) .possessive, rest)
    else
      match exact, rest with
      | false, '?' :: rest => (quantifier least most .reluctant, rest)
      | _, _ => (quantifier least most .greedy, rest)
  | none =>
    match rest with
    | '?' :: rest => (quantifier least most .reluctant, rest)
    | _ => (quantifier least most .greedy, rest)

/-- The counts after an opening brace, `{n}`, `{n,}`, `{n,m}` or `{,m}`; a brace that starts none of
these stands for itself. -/
def readInterval (text : List Char) : Token × List Char :=
  let low := text.takeWhile Char.isDigit
  if maxRepeat < digitsValue 10 low then
    (fault .hugeRepeat, [])
  else
    match text.drop low.length with
    | ',' :: rest =>
      let high := rest.takeWhile Char.isDigit
      if maxRepeat < digitsValue 10 high then
        (fault .hugeRepeat, [])
      else
        match rest.drop high.length, low, high with
        | '}' :: _, [], [] => (literal '{' false, text)
        | '}' :: rest, _, [] => withBounds (digitsValue 10 low) none false rest
        | '}' :: rest, _, _ =>
          withBounds (digitsValue 10 low) (some (digitsValue 10 high)) false rest
        | _, _, _ => (literal '{' false, text)
    | '}' :: rest =>
      if low.isEmpty then
        (literal '{' false, text)
      else
        withBounds (digitsValue 10 low) (some (digitsValue 10 low)) true rest
    | _ => (literal '{' false, text)

/-! ## The tokens of a pattern -/

/-- The first token of a text that starts with `c`, with so many groups opened before. -/
def readFirst (opened : Nat) (c : Char) (rest : List Char) : Token × List Char :=
  match c with
  | '\\' => readEscape opened rest
  | '.' => (dot, rest)
  | '^' => (anchor .lineStart, rest)
  | '$' => (anchor .lineEnd, rest)
  | '|' => (bar, rest)
  | ')' => (closing, rest)
  | '(' => readGroup opened rest
  | '*' => withGreed 0 none rest
  | '+' => withGreed 1 none rest
  | '?' => withGreed 0 (some 1) rest
  | '{' => readInterval rest
  | '[' =>
    match readSet (3 * rest.length + 3) rest with
    | .ok ((members, negated), rest) => (set members negated, rest)
    | .error problem => (fault problem, [])
  | c => (literal c false, rest)

/-- The number of groups opened after a token. -/
def openedAfter (opened : Nat) : Token → Nat
  | opening (.capture index) => index
  | _ => opened

/-- The tokens of a text with so many groups opened before; every token takes a character of the
text, so its length bounds their number. -/
def scanFrom : (budget opened : Nat) → List Char → List Token
  | 0, _, _ => []
  | _ + 1, _, [] => []
  | budget + 1, opened, c :: rest =>
    match readFirst opened c rest with
    | (token, rest) => token :: scanFrom budget (openedAfter opened token) rest

/-- The tokens of a pattern. -/
def scan (pattern : List Char) : List Token :=
  scanFrom pattern.length 0 pattern

end Token

end GrammarSearch.Pattern
