import GrammarSearch.Selector.Basic
import GrammarSearch.Selector.Token

/-!
# Reading selectors

A selector is a list of alternatives with a comma between two. An alternative is a conjunction of
operands after any number of priority marks; an operand is a path of names, a group in parentheses,
or an excluded operand after `-`. Inside a group, `|` and `,` separate choices.

Reading never fails. Where no operand can be read the conjunction ends there, and the tokens read on
the way stay read: a `-` with no operand after it is passed over.

Each function returns what it read and the tokens left. The recursion is bounded by a budget that
every call lowers; `budgetFor` tokens is enough, because a group is read from fewer tokens than the
operand that opens it.
-/

namespace GrammarSearch.Selector

open Token (isName)

/-- The part of a name that counts: what precedes its first `.*`. -/
def nameHead : List Char → List Char
  | [] => []
  | '.' :: '*' :: _ => []
  | c :: rest => c :: nameHead rest

/-- A word as a name of a path: cut before its first `.*`, without the dots left at the end. -/
def nameOf (text : List Char) : String :=
  if nameHead text = text then
    String.ofList text
  else
    String.ofList ((nameHead text).reverse.dropWhile (· == '.')).reverse

/-- The names at the start of the tokens, and the tokens after them. -/
def readNames : List Token → List String × List Token
  | .word text :: rest =>
    if isName text then
      let (names, rest) := readNames rest
      (nameOf text :: names, rest)
    else
      ([], .word text :: rest)
  | tokens => ([], tokens)

/-- A conjunction of operands: nothing, the operand itself, or all of several. -/
def conjoin : List Selector → Option Selector
  | [] => none
  | [part] => some part
  | parts => some (all parts)

/-- A choice of selectors, each of them once, in the order of their first appearance. -/
def choose (parts : List Selector) : Option Selector :=
  match parts.foldl (fun kept part => if kept.contains part then kept else kept ++ [part]) [] with
  | [] => none
  | [part] => some part
  | parts => some (any parts)

/-- The tokens after a closing parenthesis, if one comes first. -/
def skipClosing : List Token → List Token
  | .closing :: rest => rest
  | tokens => tokens

/-- The tokens after a separator of choices, if one comes first. -/
def afterSeparator? : List Token → Option (List Token)
  | .bar :: rest => some rest
  | .comma :: rest => some rest
  | _ => none

mutual

/-- An operand at the start of the tokens. -/
def readOperand : Nat → List Token → Option Selector × List Token
  | 0, tokens => (none, tokens)
  | budget + 1, .minus :: rest =>
    let (part, rest) := readOperand budget rest
    (part.map exclude, rest)
  | budget + 1, .opening :: rest =>
    let (parts, rest) := readChoices budget rest
    (choose parts, skipClosing rest)
  | _ + 1, tokens =>
    match readNames tokens with
    | ([], _) => (none, tokens)
    | (names, rest) => (some (path names), rest)

/-- The operands at the start of the tokens, up to where none can be read. -/
def readOperands : Nat → List Token → List Selector × List Token
  | 0, tokens => ([], tokens)
  | budget + 1, tokens =>
    match readOperand budget tokens with
    | (some part, rest) =>
      let (parts, rest) := readOperands budget rest
      (part :: parts, rest)
    | (none, rest) => ([], rest)

/-- The choices of a group, up to an empty one or one without a separator after it. -/
def readChoices : Nat → List Token → List Selector × List Token
  | 0, tokens => ([], tokens)
  | budget + 1, tokens =>
    match readOperands budget tokens with
    | (parts, rest) =>
      match conjoin parts with
      | none => ([], rest)
      | some part =>
        match afterSeparator? rest with
        | some rest =>
          let (others, rest) := readChoices budget rest
          (part :: others, rest)
        | none => ([part], rest)

end

/-- A budget that suffices for reading from this many tokens. -/
def budgetFor (tokens : Nat) : Nat :=
  3 * tokens + 3

/-- The conjunction at the start of the tokens. -/
def readConjunction (tokens : List Token) : Option Selector × List Token :=
  let (parts, rest) := readOperands (budgetFor tokens.length) tokens
  (conjoin parts, rest)

/-- The alternatives at the start of the tokens, the next one with the given priority. The last
priority mark before an alternative counts, and for it alone. -/
def readAlternatives : Nat → Priority → List Token → List Alternative
  | 0, _, _ => []
  | _ + 1, _, [] => []
  | budget + 1, priority, token :: rest =>
    if token = Token.left then
      readAlternatives budget .high rest
    else if token = Token.right then
      readAlternatives budget .low rest
    else
      match readConjunction (token :: rest) with
      | (some selector, .comma :: rest) =>
        ⟨priority, selector⟩ :: readAlternatives budget .normal rest
      | (some selector, _) => [⟨priority, selector⟩]
      | (none, _) => []

/-- The alternatives that a text selects. -/
def read (text : String) : List Alternative :=
  let tokens := Token.scan text.toList
  readAlternatives (tokens.length + 1) .normal tokens

end GrammarSearch.Selector
