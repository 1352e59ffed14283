import GrammarSearch.Match

/-!
# Patterns that refer to an earlier match

The end pattern of a region may refer to the groups that its begin pattern captured: a backslash and
the digits after it stand for the text of that group, quoted. A backslash that no digit follows is
an ordinary character, and reading goes on with the very next one.

Quoting turns any text into a pattern that matches just that text: letters, digits, spaces and
everything beyond ASCII stand for themselves, line feeds, carriage returns and tabs are written as
escapes, and every other character follows a backslash.
-/

namespace GrammarSearch.Pattern

/-! ## Texts as patterns -/

/-- How one character is written in a pattern that matches it. -/
def quoteChar (c : Char) : List Char :=
  if c = '\n' then ['\\', 'n']
  else if c = '\r' then ['\\', 'r']
  else if c = '\t' then ['\\', 't']
  else if c = ' ' ∨ c.isAlphanum ∨ 0x80 ≤ c.toNat then [c]
  else ['\\', c]

/-- A text written as a pattern that matches it. -/
def quote (text : List Char) : List Char :=
  text.flatMap quoteChar

/-- Writes a text as a pattern that matches it, after what is written already. -/
def writeQuoted (written text : String) : String :=
  text.toList.foldl (fun written c => written ++ String.ofList (quoteChar c)) written

@[simp] theorem quote_nil : quote [] = [] := rfl

@[simp] theorem quote_cons (c : Char) (rest : List Char) :
    quote (c :: rest) = quoteChar c ++ quote rest := rfl

/-- Quoting goes character by character. -/
theorem quote_append (first second : List Char) :
    quote (first ++ second) = quote first ++ quote second := by
  simp [quote]

/-- What is written does not depend on what was written before. -/
theorem writeQuoted_eq (written text : String) :
    writeQuoted written text = written ++ String.ofList (quote text.toList) := by
  rw [writeQuoted]
  induction text.toList generalizing written with
  | nil => exact String.append_empty.symm
  | cons c rest ih =>
    rw [List.foldl_cons, ih, quote_cons, String.ofList_append, String.append_assoc]

/-! ## Templates -/

/-- A piece of a template. -/
inductive TemplatePiece where
  | verbatim (c : Char)
  /-- A backslash with these digits after it. -/
  | reference (digits : List Char)
deriving DecidableEq, Repr, Inhabited

namespace TemplatePiece

/-- The text that a piece was read from. -/
def source : TemplatePiece → List Char
  | verbatim c => [c]
  | reference digits => '\\' :: digits

/-- Whether the piece refers to a group. -/
def isReference : TemplatePiece → Bool
  | verbatim _ => false
  | reference _ => true

/-- What a backslash with the digits read so far, last first, is as a piece. -/
def ofDigits : List Char → TemplatePiece
  | [] => verbatim '\\'
  | digits => reference digits.reverse

/-- The pieces of a template; `open?` holds the digits after a backslash just read, last first. -/
def scanFrom : (open? : Option (List Char)) → List Char → List TemplatePiece
  | none, [] => []
  | some digits, [] => [ofDigits digits]
  | none, c :: rest =>
    if c = '\\' then scanFrom (some []) rest else verbatim c :: scanFrom none rest
  | some digits, c :: rest =>
    if c.isDigit then
      scanFrom (some (c :: digits)) rest
    else if c = '\\' then
      ofDigits digits :: scanFrom (some []) rest
    else
      ofDigits digits :: verbatim c :: scanFrom none rest

/-- The pieces of a template, left to right. -/
def scan (template : List Char) : List TemplatePiece :=
  scanFrom none template

/-- A piece with its group's text in place of a reference, if the index is a machine word and the
group has a text. -/
def fill (hit : Match) (text : List Char) : TemplatePiece → List Char
  | verbatim c => [c]
  | reference digits =>
    match (Text.index? digits).bind fun group => hit.text? group text with
    | some captured => quote captured
    | none => '\\' :: digits

@[simp] theorem source_verbatim (c : Char) : (verbatim c).source = [c] := rfl

private theorem source_ofDigits (digits : List Char) :
    (ofDigits digits).source = '\\' :: digits.reverse := by
  cases digits <;> rfl

private theorem source_scanFrom (template : List Char) :
    (∀ digits, (scanFrom (some digits) template).flatMap source =
      '\\' :: digits.reverse ++ template) ∧
    (scanFrom none template).flatMap source = template := by
  induction template with
  | nil => simp [scanFrom, source_ofDigits]
  | cons c rest ih =>
    obtain ⟨ihSome, ihNone⟩ := ih
    constructor
    · intro digits
      simp only [scanFrom]
      split
      · simp [ihSome]
      · split
        · next hSlash =>
          subst hSlash
          simp [ihSome, source_ofDigits]
        · simp [ihNone, source_ofDigits]
    · simp only [scanFrom]
      split
      · next hSlash =>
        subst hSlash
        simp [ihSome]
      · simp [ihNone]

/-- The pieces of a template are the template cut up. -/
theorem source_scan (template : List Char) : (scan template).flatMap source = template :=
  (source_scanFrom template).2

end TemplatePiece

/-- Whether a template refers to a group. -/
def hasReferences (template : String) : Bool :=
  (TemplatePiece.scan template.toList).any TemplatePiece.isReference

/-- A template with the groups of a match in place of its references. Without a searched line, or
where nothing matched, it stays as it is. -/
def resolve (template : String) (source : Option Line) (hit : Match) : String :=
  match source with
  | none => template
  | some line =>
    if hit.found then
      String.ofList <|
        (TemplatePiece.scan template.toList).flatMap (TemplatePiece.fill hit line.chars)
    else
      template

end GrammarSearch.Pattern
