import GrammarSearch.Text.CharClass

/-!
# Tokens of selectors

A selector is read as words and the marks `,` `|` `-` `(` `)`; every other character only separates.
A word starts with a word character, a dot or a colon and may go on with `*` and `-` too. The
priority marks `L:` and `R:` end a word at once where one starts with them.
-/

namespace GrammarSearch.Selector

/-- A word or mark of a selector. -/
inductive Token where
  | word (text : List Char)
  | comma
  | bar
  | minus
  | opening
  | closing
deriving DecidableEq, Repr, Inhabited

namespace Token

/-- The mark of high priority. -/
def left : Token := word ['L', ':']

/-- The mark of low priority. -/
def right : Token := word ['R', ':']

/-- The mark that a character is by itself. -/
def ofMark? : Char → Option Token
  | ',' => some comma
  | '|' => some bar
  | '-' => some minus
  | '(' => some opening
  | ')' => some closing
  | _ => none

/-- Whether a word can start with the character. -/
def startsWord (c : Char) : Bool :=
  Text.isWord c || c == '.' || c == ':'

/-- Whether a word can go on with the character. -/
def continuesWord (c : Char) : Bool :=
  startsWord c || c == '*' || c == '-'

/-- The word read so far, last character first, as a token of its own if it has begun. -/
def ofPending : List Char → List Token
  | [] => []
  | pending => [word pending.reverse]

/-- The tokens of a text after the `pending` start of a word, last character first. -/
def scanFrom : (pending text : List Char) → List Token
  | pending, [] => ofPending pending
  | [], c :: rest =>
    if startsWord c then scanFrom [c] rest else (ofMark? c).toList ++ scanFrom [] rest
  | pending, c :: rest =>
    if c = ':' ∧ (pending = ['L'] ∨ pending = ['R']) then
      word (c :: pending).reverse :: scanFrom [] rest
    else if continuesWord c then
      scanFrom (c :: pending) rest
    else
      ofPending pending ++ (ofMark? c).toList ++ scanFrom [] rest

/-- The tokens of a selector. -/
def scan (text : List Char) : List Token :=
  scanFrom [] text

/-- Whether a word is a name: it has only ASCII letters, digits and `_` `.` `:` `-` `*`. -/
def isName (text : List Char) : Bool :=
  text.all fun c => c.isAlphanum || c == '_' || c == '.' || c == ':' || c == '-' || c == '*'

end Token

end GrammarSearch.Selector
