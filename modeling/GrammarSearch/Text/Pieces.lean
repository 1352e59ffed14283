/-!
# Cutting texts at separators

`pieces` cuts a text at every separator and keeps the empty pieces; `words` drops them.

## Main results

* `pieces_append_cons`: a separator cuts the pieces of what precedes it from those of what follows.
* `words_append_cons`: the same for the non-empty pieces.
-/

namespace GrammarSearch.Text

/-- The parts of a text between its separators, empty ones included; there is always one. -/
def pieces (isSeparator : Char → Bool) : List Char → List (List Char)
  | [] => [[]]
  | c :: rest =>
    if isSeparator c then
      [] :: pieces isSeparator rest
    else
      match pieces isSeparator rest with
      | [] => [[c]]
      | piece :: others => (c :: piece) :: others

/-- The parts of a text between its separators that hold a character. -/
def words (isSeparator : Char → Bool) (text : List Char) : List (List Char) :=
  (pieces isSeparator text).filter fun piece => !piece.isEmpty

theorem pieces_ne_nil (isSeparator : Char → Bool) (text : List Char) :
    pieces isSeparator text ≠ [] := by
  cases text with
  | nil => simp [pieces]
  | cons c rest =>
    simp only [pieces]
    split
    · simp
    · split <;> simp

/-- A separator cuts the pieces of what precedes it from those of what follows. -/
theorem pieces_append_cons (isSeparator : Char → Bool) (before after : List Char) (c : Char)
    (hSeparator : isSeparator c = true) :
    pieces isSeparator (before ++ c :: after) =
      pieces isSeparator before ++ pieces isSeparator after := by
  induction before with
  | nil => simp [pieces, hSeparator]
  | cons d rest ih =>
    simp only [List.cons_append, pieces, ih]
    split
    · rfl
    · cases hRest : pieces isSeparator rest with
      | nil => exact absurd hRest (pieces_ne_nil isSeparator rest)
      | cons piece others => rfl

/-- A separator cuts the words of what precedes it from those of what follows. -/
theorem words_append_cons (isSeparator : Char → Bool) (before after : List Char) (c : Char)
    (hSeparator : isSeparator c = true) :
    words isSeparator (before ++ c :: after) =
      words isSeparator before ++ words isSeparator after := by
  simp [words, pieces_append_cons isSeparator before after c hSeparator]

@[simp] theorem words_nil (isSeparator : Char → Bool) : words isSeparator [] = [] := rfl

end GrammarSearch.Text
