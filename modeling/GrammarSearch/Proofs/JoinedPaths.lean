import GrammarSearch.Scope
import Mathlib.Data.List.Chain
import Mathlib.Data.List.Induction
import Mathlib.Data.List.ReduceOption

/-!
# Joined paths

A path is joined from names of which some may be absent, empty or blank, and is taken apart at white
space again.  The join goes from name to name and looks only at what is written already: a name is
written after a space unless nothing is written yet (`toList_path_append_some`).  So every space of
the path's own stands between two names with some text, and cuts the scopes of the names before it
from those of the name after it (`split_path_append_some`).

A name may bring white space itself.  `Mark` tells it from the spaces that the path puts between
names, and `marks` is the path with each character's origin.

## Main results

* `split_path`: the scopes of a path are those of its names.
* `parted_marks`: a path's own spaces stand between names, one at a time.
* `joining_and_splitting_agree`: these, and the names that come back as they are.
-/

namespace GrammarSearch

namespace Text

variable {isSeparator : Char → Bool}

/-- A text without separators is its only piece. -/
theorem pieces_of_no_separator {text : List Char} (h : ∀ c ∈ text, isSeparator c = false) :
    pieces isSeparator text = [text] := by
  induction text with
  | nil => rfl
  | cons c rest ih =>
    obtain ⟨hFirst, hRest⟩ := List.forall_mem_cons.1 h
    rw [pieces, hFirst, ih hRest]
    rfl

theorem words_of_no_separator {text : List Char} (h : ∀ c ∈ text, isSeparator c = false) :
    words isSeparator text = [text].filter fun piece => !piece.isEmpty := by
  rw [words, pieces_of_no_separator h]

/-- One more part is joined to the parts before it by a separator. -/
theorem intercalate_append_singleton (separator : Char) {parts : List (List Char)}
    (hParts : parts ≠ []) (last : List Char) :
    [separator].intercalate (parts ++ [last]) =
      [separator].intercalate parts ++ separator :: last := by
  induction parts with
  | nil => contradiction
  | cons part rest ih =>
    cases rest with
    | nil => simp
    | cons next rest =>
      have hRest := ih (List.cons_ne_nil next rest)
      rw [List.cons_append] at hRest ⊢
      rw [List.cons_append, List.intercalate_cons_cons, hRest, List.intercalate_cons_cons,
        ← List.append_assoc]

end Text

namespace Scope

variable {names : List (Option String)} {name : String}

/-! ## One more name -/

/-- The names that have some text. -/
def present (names : List (Option String)) : List String :=
  names.reduceOption.filter fun name => !name.isEmpty

theorem path_eq (names : List (Option String)) :
    path names = String.ofList ([' '].intercalate ((present names).map String.toList)) := by
  rw [path, present, List.reduceOption, List.filter_filterMap]
  rfl

theorem path_eq_empty_iff : path names = "" ↔ present names = [] := by
  rw [path_eq, ← String.toList_eq_nil_iff, String.toList_ofList]
  cases hPresent : present names with
  | nil => simp
  | cons first rest =>
    have hFirst : first ≠ "" := by
      have hMem : first ∈ present names := hPresent ▸ List.mem_cons_self
      simpa using (List.mem_filter.1 hMem).2
    cases rest with
    | nil => simp [hFirst]
    | cons next rest => simp [List.intercalate_cons_cons, hFirst]

theorem present_append (before after : List (Option String)) :
    present (before ++ after) = present before ++ present after := by
  rw [present, List.reduceOption_append, List.filter_append]
  rfl

theorem path_append_none : path (names ++ [none]) = path names := by
  rw [path_eq, path_eq, present_append]
  simp [present]

theorem path_append_some_empty : path (names ++ [some ""]) = path names := by
  rw [path_eq, path_eq, present_append]
  simp [present]

/-- A name with some text is written after a space, unless nothing is written yet. -/
theorem toList_path_append_some (hName : name ≠ "") :
    (path (names ++ [some name])).toList =
      (if path names = "" then [] else (path names).toList ++ [' ']) ++ name.toList := by
  have hPresent : present [some name] = [name] := by
    simp [present, hName]
  rw [path_eq, String.toList_ofList, present_append, hPresent, List.map_append, List.map_singleton]
  split
  · next hEmpty => simp [path_eq_empty_iff.1 hEmpty]
  · next hWritten =>
    have hParts : (present names).map String.toList ≠ [] := by
      simpa [path_eq_empty_iff] using hWritten
    rw [Text.intercalate_append_singleton ' ' hParts, path_eq, String.toList_ofList,
      List.append_assoc, List.singleton_append]

/-! ## Splitting -/

theorem split_path_append_some (names : List (Option String)) (name : String) :
    split (path (names ++ [some name])) = split (path names) ++ split name := by
  by_cases hName : name = ""
  · subst hName
    rw [path_append_some_empty]
    exact (List.append_nil _).symm
  · rw [split, toList_path_append_some hName]
    split_ifs with hEmpty
    · rw [hEmpty]
      rfl
    · rw [List.append_assoc, List.singleton_append,
        Text.words_append_cons Text.isBlank _ _ ' ' (by decide), List.map_append]
      rfl

/-- The scopes of a path are those of its names, in order. -/
theorem split_path (names : List (Option String)) :
    split (path names) = names.reduceOption.flatMap split := by
  induction names using List.reverseRecOn with
  | nil => rfl
  | append_singleton names name ih =>
    rw [List.reduceOption_append, List.flatMap_append, ← ih]
    cases name with
    | none =>
      rw [path_append_none]
      exact (List.append_nil _).symm
    | some name =>
      rw [split_path_append_some]
      simp

/-- A name without white space is its own scope, if it has some text. -/
theorem split_of_no_blank (hName : ∀ c ∈ name.toList, Text.isBlank c = false) :
    split name = [name].filter fun scope => !scope.isEmpty := by
  rw [split, Text.words_of_no_separator hName]
  by_cases hEmpty : name = ""
  · subst hEmpty
    rfl
  · simp [hEmpty]

/-! ## Whose the spaces are -/

/-- A character of a path with its origin. -/
inductive Mark where
  /-- A character of a name. -/
  | ofName (c : Char)
  /-- The space that a path puts between two names. -/
  | gap
deriving DecidableEq

namespace Mark

/-- The character as it stands in the path. -/
def char : Mark → Char
  | ofName c => c
  | gap => ' '

/-- The character, if a name brought it. -/
def brought? : Mark → Option Char
  | ofName c => some c
  | gap => none

/-- Writes a name after what is written already, with a gap before it unless that is nothing. An
absent name and an empty one leave everything as it is. -/
def write (written : List Mark) : Option String → List Mark
  | none => written
  | some name =>
    if name.isEmpty then written
    else (if written.isEmpty then [] else written ++ [gap]) ++ name.toList.map ofName

/-- There is a character of a name before and after every gap. -/
structure Parted (marks : List Mark) : Prop where
  head : marks.head? ≠ some gap
  last : marks.getLast? ≠ some gap
  apart : marks.IsChain fun first second => first = gap → second ≠ gap

theorem parted_ofName (text : List Char) : Parted (text.map ofName) where
  head := by cases text <;> simp
  last := by simp [List.getLast?_map]
  apart := by
    refine (List.pairwise_of_forall_mem_list ?_).isChain
    rintro first hFirst _ - rfl
    simp at hFirst

/-- A gap between two texts is the only new one. -/
theorem Parted.append {first second : List Mark} (hFirst : Parted first) (hSecond : Parted second)
    (hBefore : first ≠ []) (hAfter : second ≠ []) : Parted (first ++ gap :: second) where
  head := by
    rw [List.head?_append_of_ne_nil first hBefore]
    exact hFirst.head
  last := by
    obtain ⟨mark, rest, rfl⟩ := List.exists_cons_of_ne_nil hAfter
    rw [List.getLast?_append_of_ne_nil first (List.cons_ne_nil gap _), List.getLast?_cons_cons]
    exact hSecond.last
  apart := by
    refine List.isChain_append.2 ⟨hFirst.apart, List.isChain_cons.2 ⟨?_, hSecond.apart⟩, ?_⟩
    · rintro mark hMark - rfl
      exact hSecond.head hMark
    · rintro mark hMark _ - rfl
      exact absurd hMark hFirst.last

theorem Parted.write {written : List Mark} (h : Parted written) (name : Option String) :
    Parted (write written name) := by
  cases name with
  | none => exact h
  | some name =>
    rw [Mark.write]
    split_ifs with hName hWritten
    · exact h
    · exact parted_ofName name.toList
    · rw [List.append_assoc, List.singleton_append]
      exact h.append (parted_ofName name.toList) (by simpa using hWritten) (by simpa using hName)

end Mark

/-- A path with the origin of its characters, written name by name. -/
def marks (names : List (Option String)) : List Mark :=
  names.foldl Mark.write []

theorem marks_append_singleton (names : List (Option String)) (name : Option String) :
    marks (names ++ [name]) = Mark.write (marks names) name := by
  rw [marks, List.foldl_append]
  rfl

/-- The path's own spaces are neither first nor last, and there are no two in a row. -/
theorem parted_marks (names : List (Option String)) : Mark.Parted (marks names) := by
  induction names using List.reverseRecOn with
  | nil => exact Mark.parted_ofName []
  | append_singleton names name ih =>
    rw [marks_append_singleton]
    exact ih.write name

/-- The marks are those of the characters of the path. -/
theorem map_char_marks (names : List (Option String)) :
    (marks names).map Mark.char = (path names).toList := by
  induction names using List.reverseRecOn with
  | nil => rfl
  | append_singleton names name ih =>
    rw [marks_append_singleton]
    cases name with
    | none => rw [path_append_none, ← ih, Mark.write]
    | some name =>
      -- What is written is nothing exactly if the path is empty so far.
      have hEmpty : (marks names).isEmpty = true ↔ path names = "" := by
        rw [← String.toList_eq_nil_iff, ← ih, List.map_eq_nil_iff, List.isEmpty_iff]
      have hName : (name.toList.map Mark.ofName).map Mark.char = name.toList := by
        rw [List.map_map]
        exact List.map_id name.toList
      rw [Mark.write]
      by_cases hText : name = ""
      · subst hText
        rw [path_append_some_empty, ← ih]
        rfl
      · rw [if_neg (by simpa using hText), toList_path_append_some hText, List.map_append, hName]
        by_cases hWritten : path names = ""
        · rw [if_pos (hEmpty.2 hWritten), if_pos hWritten]
          rfl
        · rw [if_neg (mt hEmpty.1 hWritten), if_neg hWritten, List.map_append, ih]
          rfl

/-- The characters that are not the path's own are those of the names, in order. -/
theorem filterMap_brought?_marks (names : List (Option String)) :
    (marks names).filterMap Mark.brought? = names.reduceOption.flatMap String.toList := by
  induction names using List.reverseRecOn with
  | nil => rfl
  | append_singleton names name ih =>
    rw [marks_append_singleton, List.reduceOption_append, List.flatMap_append, ← ih]
    cases name with
    | none => simp [Mark.write]
    | some name =>
      have hName : (name.toList.map Mark.ofName).filterMap Mark.brought? = name.toList := by
        rw [List.filterMap_map]
        exact List.filterMap_some
      rw [Mark.write]
      split_ifs with hEmpty hWritten
      · simp [String.isEmpty_iff.1 hEmpty]
      · rw [List.isEmpty_iff.1 hWritten, List.nil_append, hName]
        simp
      · rw [List.filterMap_append, List.filterMap_append, hName]
        simp [Mark.brought?]

/-! ## Joining and splitting -/

/-- Splitting a path gives the scopes of its names, one name after another, whatever white space
these hold.  If they hold none, it gives the names themselves, less those that are absent or empty.
Less the spaces that the path puts between them, its characters are those of the names; and these
spaces are neither first nor last, and no two of them stand in a row. -/
theorem joining_and_splitting_agree (names : List (Option String)) :
    split (path names) = names.reduceOption.flatMap split ∧
    ((∀ name ∈ names.reduceOption, ∀ c ∈ name.toList, Text.isBlank c = false) →
      split (path names) = names.reduceOption.filter fun name => !name.isEmpty) ∧
    (marks names).map Mark.char = (path names).toList ∧
    (marks names).filterMap Mark.brought? = names.reduceOption.flatMap String.toList ∧
    Mark.Parted (marks names) := by
  refine ⟨split_path names, fun hNames => ?_, map_char_marks names, filterMap_brought?_marks names,
    parted_marks names⟩
  calc split (path names)
    _ = names.reduceOption.flatMap split := split_path names
    _ = names.reduceOption.flatMap fun name => [name].filter fun scope => !scope.isEmpty :=
      List.flatMap_congr fun name hName => split_of_no_blank (hNames name hName)
    _ = names.reduceOption.filter fun name => !name.isEmpty := by
      rw [← List.filter_flatMap, List.flatMap_singleton']

/-- Absent and empty names at the start, in the middle and at the end. -/
def scatteredNames : List (Option String) :=
  [none, some "", some "source.js", none, some "meta.embedded", some ""]

theorem split_path_scatteredNames :
    (∀ name ∈ scatteredNames.reduceOption, ∀ c ∈ name.toList, Text.isBlank c = false) ∧
    split (path scatteredNames) = ["source.js", "meta.embedded"] := by
  have hAll : (scatteredNames.reduceOption.all fun name =>
      name.toList.all fun c => !Text.isBlank c) = true := by decide
  have hNames : ∀ name ∈ scatteredNames.reduceOption, ∀ c ∈ name.toList,
      Text.isBlank c = false := by
    simpa only [List.all_eq_true, Bool.not_eq_true'] using hAll
  exact ⟨hNames, (joining_and_splitting_agree scatteredNames).2.1 hNames⟩

/-- Where two spaces stand in a row, at the start and inside, a name has brought the first one. -/
example : marks [some " ", none, some "a ", some "", some "b\t"] =
    [.ofName ' ', .gap, .ofName 'a', .ofName ' ', .gap, .ofName 'b', .ofName '\t'] := by decide

end Scope

end GrammarSearch
