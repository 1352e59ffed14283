import GrammarSearch.Proofs.ClosingDelimiters
import Mathlib.Data.List.Forall2

/-!
# What templates stand for

`Reads` says what the pieces of a template are, apart from how they are found: a backslash makes a
reference with the longest run of digits after it, and every other character is a piece by itself, a
backslash that no digit follows included.  There is exactly one way to cut a template so
(`reads_iff`).  `Stands` says what a piece stands for once something has matched.

## Main results

* `reads_iff`: the pieces of a template are those that `scan` finds.
* `stands_scan_iff`: what the pieces stand for is what `fill` puts there.
* `resolve_of_not_hasReferences`: a template without references stands for itself.
-/

namespace GrammarSearch.Pattern

open TemplatePiece

/-! ## Pieces -/

/-- No digit comes first. -/
def StartsWithoutDigit (text : List Char) : Prop :=
  ∀ c ∈ text.head?, ¬ c.isDigit = true

/-- A template is cut into these pieces, left to right. -/
inductive Reads : List Char → List TemplatePiece → Prop
  | nil : Reads [] []
  | reference {digits rest : List Char} {pieces : List TemplatePiece} (hSome : digits ≠ [])
      (hDigits : digits.all Char.isDigit = true) (hLongest : StartsWithoutDigit rest)
      (hRest : Reads rest pieces) :
      Reads ('\\' :: (digits ++ rest)) (.reference digits :: pieces)
  | verbatim {c : Char} {rest : List Char} {pieces : List TemplatePiece}
      (hPlain : c = '\\' → StartsWithoutDigit rest) (hRest : Reads rest pieces) :
      Reads (c :: rest) (.verbatim c :: pieces)

namespace TemplatePiece

/-- Where no digit follows, what was read after a backslash is a piece. -/
theorem scanFrom_some_of_startsWithoutDigit {rest : List Char} (h : StartsWithoutDigit rest)
    (read : List Char) : scanFrom (some read) rest = ofDigits read :: scan rest := by
  cases rest with
  | nil => rfl
  | cons c rest =>
    rw [scanFrom, if_neg (h c rfl), scan, scanFrom]
    split
    · rfl
    · rfl

theorem scan_reference_append {digits rest : List Char} (hSome : digits ≠ [])
    (hDigits : digits.all Char.isDigit = true) (hLongest : StartsWithoutDigit rest) :
    scan ('\\' :: (digits ++ rest)) = reference digits :: scan rest := by
  show scanFrom (some []) (digits ++ rest) = _
  rw [scanFrom_digits hDigits, scanFrom_some_of_startsWithoutDigit hLongest, List.append_nil,
    ofDigits_reverse hSome]

theorem scan_cons {c : Char} {rest : List Char} (hPlain : c = '\\' → StartsWithoutDigit rest) :
    scan (c :: rest) = verbatim c :: scan rest := by
  by_cases hSlash : c = '\\'
  · subst hSlash
    exact scanFrom_some_of_startsWithoutDigit (hPlain rfl) []
  · rw [scan, scanFrom, if_neg hSlash]
    rfl

/-- Text without a backslash is copied. -/
theorem scan_append_of_notMem {plain : List Char} (h : '\\' ∉ plain) (rest : List Char) :
    scan (plain ++ rest) = plain.map verbatim ++ scan rest := by
  induction plain with
  | nil => rfl
  | cons c plain ih =>
    obtain ⟨hFirst, hPlain⟩ := not_or.1 (List.mem_cons.not.1 h)
    rw [List.cons_append, scan_cons fun hSlash => absurd hSlash.symm hFirst, ih hPlain]
    rfl

end TemplatePiece

theorem startsWithoutDigit_dropWhile (text : List Char) :
    StartsWithoutDigit (text.dropWhile Char.isDigit) := by
  intro c hFirst hDigit
  have hNot := List.head?_dropWhile_not Char.isDigit text
  rw [Option.mem_def.1 hFirst] at hNot
  simp [hDigit] at hNot

/-- After a backslash come the digits of a reference, or else no digit at all. -/
theorem exists_digits (text : List Char) :
    ∃ digits rest, text = digits ++ rest ∧ digits.all Char.isDigit = true ∧
      StartsWithoutDigit rest :=
  ⟨text.takeWhile Char.isDigit, text.dropWhile Char.isDigit, List.takeWhile_append_dropWhile.symm,
    List.all_takeWhile, startsWithoutDigit_dropWhile text⟩

theorem reads_scan (template : List Char) : Reads template (scan template) := by
  induction hLength : template.length using Nat.strongRecOn generalizing template with
  | ind length ih =>
  subst hLength
  cases template with
  | nil => exact .nil
  | cons c rest =>
    by_cases hSlash : c = '\\'
    · subst hSlash
      obtain ⟨digits, after, rfl, hDigits, hAfter⟩ := exists_digits rest
      by_cases hNone : digits = []
      · subst hNone
        rw [List.nil_append] at ih ⊢
        rw [scan_cons fun _ => hAfter]
        exact .verbatim (fun _ => hAfter) (ih _ (by simp) after rfl)
      · rw [scan_reference_append hNone hDigits hAfter]
        refine .reference hNone hDigits hAfter (ih _ ?_ after rfl)
        simp only [List.length_cons, List.length_append]
        omega
    · rw [scan_cons fun hSame => absurd hSame hSlash]
      exact .verbatim (fun hSame => absurd hSame hSlash) (ih _ (by simp) rest rfl)

/-- The pieces of a template are those that are found. -/
theorem reads_iff {template : List Char} {pieces : List TemplatePiece} :
    Reads template pieces ↔ pieces = scan template := by
  constructor
  · intro hReads
    induction hReads with
    | nil => rfl
    | reference hSome hDigits hLongest _ ih =>
      rw [scan_reference_append hSome hDigits hLongest, ih]
    | verbatim hPlain _ ih => rw [scan_cons hPlain, ih]
  · rintro rfl
    exact reads_scan template

/-! ## What pieces stand for -/

/-- The digits denote a machine word and with it a group, which captured this part of the text. -/
def Denotes (hit : Match) (text digits captured : List Char) : Prop :=
  Text.digitsValue digits < Text.wordSize ∧
  ∃ span, hit.groups[Text.digitsValue digits]? = some span ∧
    ∃ before after, before ++ captured ++ after = text ∧
      Text.byteLength before = span.start ∧ Text.byteLength (before ++ captured) = span.stop

/-- What a piece stands for: a character for itself, a reference for the quoted text of its group,
and for its own text where it has none. -/
inductive Stands (hit : Match) (text : List Char) : TemplatePiece → List Char → Prop
  | verbatim (c : Char) : Stands hit text (.verbatim c) [c]
  | captured {digits captured : List Char} (h : Denotes hit text digits captured) :
      Stands hit text (.reference digits) (quote captured)
  | nothing {digits : List Char} (h : ∀ captured, ¬ Denotes hit text digits captured) :
      Stands hit text (.reference digits) ('\\' :: digits)

theorem denotes_iff {hit : Match} {text digits captured : List Char} (hSome : digits ≠ [])
    (hDigits : digits.all Char.isDigit = true) :
    Denotes hit text digits captured ↔
      ((Text.index? digits).bind fun group => hit.text? group text) = some captured := by
  by_cases hWord : Text.digitsValue digits < Text.wordSize
  · have hIndex : Text.index? digits = some (Text.digitsValue digits) :=
      if_pos ⟨hSome, hDigits, hWord⟩
    rw [hIndex, Option.bind_some, Match.text?, Option.bind_eq_some_iff, Denotes,
      and_iff_right hWord]
    simp only [Match.span?, Text.slice?_eq_some_iff]
  · have hIndex : Text.index? digits = none := if_neg fun hAll => hWord hAll.2.2
    rw [hIndex, Option.bind_none]
    exact iff_of_false (fun hDenotes => hWord hDenotes.1) (by simp)

/-- What stands for a piece of a template is what the template is filled with. -/
theorem stands_iff {hit : Match} {text out : List Char} {piece : TemplatePiece}
    (hDigits : ∀ digits, piece = .reference digits → digits ≠ [] ∧ digits.all Char.isDigit = true) :
    Stands hit text piece out ↔ out = fill hit text piece := by
  cases piece with
  | verbatim c =>
    constructor
    · rintro ⟨⟩
      rfl
    · rintro rfl
      exact .verbatim c
  | reference digits =>
    obtain ⟨hSome, hAll⟩ := hDigits digits rfl
    rw [fill]
    cases hText : (Text.index? digits).bind fun group => hit.text? group text with
    | none =>
      have hNot (captured : List Char) : ¬ Denotes hit text digits captured := by
        rw [denotes_iff hSome hAll, hText]
        simp
      constructor
      · intro hStands
        cases hStands with
        | captured h => exact absurd h (hNot _)
        | nothing => rfl
      · rintro rfl
        exact .nothing hNot
    | some captured =>
      have hDenotes : Denotes hit text digits captured := (denotes_iff hSome hAll).2 hText
      constructor
      · intro hStands
        cases hStands with
        | captured h =>
          rw [denotes_iff hSome hAll, hText] at h
          rw [Option.some.inj h]
        | nothing h => exact absurd hDenotes (h captured)
      · rintro rfl
        exact .captured hDenotes

theorem digits_of_mem_scan {template digits : List Char}
    (h : .reference digits ∈ scan template) : digits ≠ [] ∧ digits.all Char.isDigit = true := by
  have hReads := reads_scan template
  revert h
  generalize scan template = pieces at hReads
  intro h
  induction hReads with
  | nil => exact absurd h List.not_mem_nil
  | reference hSome hDigits _ _ ih =>
    rcases List.mem_cons.1 h with hSame | hLater
    · cases hSame
      exact ⟨hSome, hDigits⟩
    · exact ih hLater
  | verbatim _ _ ih =>
    rcases List.mem_cons.1 h with hSame | hLater
    · cases hSame
    · exact ih hLater

/-- What the pieces of a template stand for, one by one, is what it is filled with. -/
theorem stands_scan_iff {hit : Match} {text template : List Char} {filled : List (List Char)} :
    List.Forall₂ (Stands hit text) (scan template) filled ↔
      filled = (scan template).map (fill hit text) := by
  have hDigits : ∀ piece ∈ scan template, ∀ digits, piece = .reference digits →
      digits ≠ [] ∧ digits.all Char.isDigit = true :=
    fun _ hMem _ hSame => digits_of_mem_scan (hSame ▸ hMem)
  have hFill : (scan template).map (fill hit text) = filled ↔
      List.Forall₂ (fun piece out => fill hit text piece = out) (scan template) filled := by
    rw [← List.forall₂_map_left_iff, List.forall₂_eq_eq_eq]
  rw [eq_comm, hFill]
  constructor
  · intro hStands
    have hBoth := (List.forall₂_and_left _ _).2 ⟨hDigits, hStands⟩
    exact hBoth.imp fun _ _ ⟨hPiece, hOut⟩ => ((stands_iff hPiece).1 hOut).symm
  · intro hFilled
    have hBoth := (List.forall₂_and_left _ _).2 ⟨hDigits, hFilled⟩
    exact hBoth.imp fun _ _ ⟨hPiece, hOut⟩ => (stands_iff hPiece).2 hOut.symm

/-! ## Templates without references -/

theorem hasReferences_iff {template : String} :
    hasReferences template = true ↔ ∃ digits, .reference digits ∈ scan template.toList := by
  rw [hasReferences, List.any_eq_true]
  constructor
  · rintro ⟨piece, hMem, hReference⟩
    cases piece with
    | verbatim c => cases hReference
    | reference digits => exact ⟨digits, hMem⟩
  · rintro ⟨digits, hMem⟩
    exact ⟨_, hMem, rfl⟩

/-- A template without references is filled with itself. -/
theorem flatMap_fill_of_forall_not_reference {template : List Char} (hit : Match) (text : List Char)
    (h : ¬ ∃ digits, .reference digits ∈ scan template) :
    (scan template).flatMap (fill hit text) = template := by
  have hSame : ∀ piece ∈ scan template, fill hit text piece = piece.source := by
    intro piece hMem
    cases piece with
    | verbatim c => rfl
    | reference digits => exact absurd ⟨digits, hMem⟩ h
  rw [List.flatMap_congr hSame, source_scan]

theorem resolve_of_not_hasReferences {template : String} (h : hasReferences template = false)
    (source : Option Line) (hit : Match) : resolve template source hit = template := by
  have hNone : ¬ ∃ digits, .reference digits ∈ scan template.toList := fun hSome => by
    rw [hasReferences_iff.2 hSome] at h
    cases h
  unfold resolve
  cases source with
  | none => rfl
  | some line =>
    dsimp only
    split
    · rw [flatMap_fill_of_forall_not_reference hit line.chars hNone, String.ofList_toList]
    · rfl

end GrammarSearch.Pattern
