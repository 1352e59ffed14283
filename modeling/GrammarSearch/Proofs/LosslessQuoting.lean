import GrammarSearch.Pattern.Template
import Mathlib.Data.List.Basic
import Mathlib.Data.Set.List
import Mathlib.InformationTheory.Coding.UniquelyDecodable

/-!
# Quoting loses nothing

A pattern that stands for one text only can be read back from left to right: a backslash makes a
glyph with the character after it, and every other character is a glyph by itself.  Quoting writes
every character of a text as one glyph that stands for it, so the glyphs of a quoted text are those
of its characters, whatever these are (`glyphs_quote`), and reading a quoted text gives the text.

`Glyph.IsQuoted` says which glyphs quoting writes, and patterns of such glyphs are exactly the
quoted texts (`mem_range_quote_iff`).

## Main results

* `readLiterally_quote`: reading a quoted text gives the text.
* `mem_range_quote_iff`: which patterns are quoted texts.
* `uniquelyDecodable_quoteChar`: a quoted text falls apart into quoted characters in one way only.
-/

namespace GrammarSearch.Pattern

/-! ## Glyphs -/

/-- What stands for one character in a pattern that is read literally. -/
inductive Glyph where
  /-- A backslash with the character after it. -/
  | escaped (c : Char)
  /-- A character by itself. -/
  | plain (c : Char)
deriving DecidableEq

/-- The glyphs of a pattern, left to right. -/
def glyphs : List Char → List Glyph
  | '\\' :: c :: rest => .escaped c :: glyphs rest
  | c :: rest => .plain c :: glyphs rest
  | [] => []

namespace Glyph

/-- The character that a glyph stands for: some letters after a backslash name a control character,
and everything else stands for itself. -/
def meaning : Glyph → Char
  | escaped 'n' => '\n'
  | escaped 'r' => '\r'
  | escaped 't' => '\t'
  | escaped c => c
  | plain c => c

/-- How a glyph is written. -/
def source : Glyph → List Char
  | escaped c => ['\\', c]
  | plain c => [c]

/-- The glyph that quoting writes for a character. -/
def ofChar (c : Char) : Glyph :=
  if c = '\n' then escaped 'n'
  else if c = '\r' then escaped 'r'
  else if c = '\t' then escaped 't'
  else if c = ' ' ∨ c.isAlphanum ∨ 0x80 ≤ c.toNat then plain c
  else escaped c

/-- Quoting leaves letters, digits, spaces and what is beyond ASCII alone, and puts a backslash
before everything else, and before the letters that name control characters. -/
def IsQuoted : Glyph → Prop
  | escaped c => c ∈ ['n', 'r', 't'] ∨
      c.toNat < 0x80 ∧ ¬ c.isAlphanum ∧ c ∉ [' ', '\n', '\r', '\t']
  | plain c => c = ' ' ∨ c.isAlphanum ∨ 0x80 ≤ c.toNat

instance : DecidablePred IsQuoted
  | escaped c => inferInstanceAs <| Decidable <| c ∈ ['n', 'r', 't'] ∨
      c.toNat < 0x80 ∧ ¬ c.isAlphanum ∧ c ∉ [' ', '\n', '\r', '\t']
  | plain c => inferInstanceAs <| Decidable <| c = ' ' ∨ c.isAlphanum ∨ 0x80 ≤ c.toNat

end Glyph

/-- A pattern read literally: the text that its glyphs stand for. -/
def readLiterally (pattern : List Char) : List Char :=
  (glyphs pattern).map Glyph.meaning

theorem glyphs_plain {c : Char} (h : c ≠ '\\') (rest : List Char) :
    glyphs (c :: rest) = .plain c :: glyphs rest := by
  rw [glyphs]
  exact fun _ _ hSlash => absurd hSlash h

/-- The glyphs of a pattern are the pattern cut up. -/
theorem source_glyphs (pattern : List Char) : (glyphs pattern).flatMap Glyph.source = pattern := by
  fun_induction glyphs pattern with
  | case1 c rest ih => rw [List.flatMap_cons, ih]; rfl
  | case2 c rest hPlain ih => rw [List.flatMap_cons, ih]; rfl
  | case3 => rfl

/-! ## What quoting writes -/

theorem source_ofChar (c : Char) : (Glyph.ofChar c).source = quoteChar c := by
  unfold Glyph.ofChar quoteChar
  split_ifs <;> rfl

namespace Glyph

theorem isQuoted_ofChar (c : Char) : (ofChar c).IsQuoted := by
  unfold ofChar
  split_ifs with hFeed hReturn hTab hPlain
  · exact .inl (by decide)
  · exact .inl (by decide)
  · exact .inl (by decide)
  · exact hPlain
  · obtain ⟨hSpace, hSymbol, hAscii⟩ : c ≠ ' ' ∧ ¬ c.isAlphanum ∧ ¬ 0x80 ≤ c.toNat := by
      simpa only [not_or] using hPlain
    exact .inr ⟨Nat.not_le.1 hAscii, hSymbol, by simp [hSpace, hFeed, hReturn, hTab]⟩

/-- A symbol after a backslash stands for itself. -/
theorem meaning_escaped {c : Char} (h : ¬ c.isAlphanum) : (escaped c).meaning = c := by
  unfold meaning
  split
  case h_4 hSame => exact (Glyph.escaped.inj hSame).symm
  case h_5 hSame => cases hSame
  all_goals
    next hSame =>
      cases hSame
      exact absurd rfl h

/-- A character is written as a glyph that stands for it. -/
theorem meaning_ofChar (c : Char) : (ofChar c).meaning = c := by
  unfold ofChar
  split_ifs with hFeed hReturn hTab hPlain
  · exact hFeed.symm
  · exact hReturn.symm
  · exact hTab.symm
  · rfl
  · exact meaning_escaped fun hIs => hPlain (.inr (.inl hIs))

/-- What a glyph that quoting writes stands for is written as that glyph. -/
theorem ofChar_meaning {glyph : Glyph} (h : glyph.IsQuoted) : ofChar glyph.meaning = glyph := by
  cases glyph with
  | plain c =>
    have hNamed : c ≠ '\n' ∧ c ≠ '\r' ∧ c ≠ '\t' := by
      refine ⟨?_, ?_, ?_⟩ <;> rintro rfl <;> exact absurd h (by decide)
    show ofChar c = plain c
    rw [ofChar, if_neg hNamed.1, if_neg hNamed.2.1, if_neg hNamed.2.2]
    exact if_pos h
  | escaped c =>
    rcases h with hLetter | ⟨hAscii, hSymbol, hOther⟩
    · simp only [List.mem_cons, List.not_mem_nil, or_false] at hLetter
      rcases hLetter with rfl | rfl | rfl <;> rfl
    · simp only [List.mem_cons, List.not_mem_nil, or_false, not_or] at hOther
      obtain ⟨hSpace, hFeed, hReturn, hTab⟩ := hOther
      rw [meaning_escaped hSymbol, ofChar, if_neg hFeed, if_neg hReturn, if_neg hTab, if_neg]
      rintro (hIs | hIs | hIs)
      · exact hSpace hIs
      · exact hSymbol hIs
      · omega

end Glyph

/-! ## Reading back -/

/-- What quoting writes for a character is one glyph, whatever comes after it. -/
theorem glyphs_quoteChar_append (c : Char) (rest : List Char) :
    glyphs (quoteChar c ++ rest) = Glyph.ofChar c :: glyphs rest := by
  rw [← source_ofChar]
  cases hGlyph : Glyph.ofChar c with
  | escaped _ => rfl
  | plain d =>
    have hQuoted : (Glyph.plain d).IsQuoted := hGlyph ▸ Glyph.isQuoted_ofChar c
    refine glyphs_plain ?_ rest
    rintro rfl
    exact absurd hQuoted (by decide)

/-- The glyphs of a quoted text are those of its characters. -/
theorem glyphs_quote (text : List Char) : glyphs (quote text) = text.map Glyph.ofChar := by
  induction text with
  | nil => rfl
  | cons c text ih => rw [quote_cons, glyphs_quoteChar_append, ih, List.map_cons]

/-- Reading a quoted text gives the text. -/
theorem readLiterally_quote (text : List Char) : readLiterally (quote text) = text := by
  rw [readLiterally, glyphs_quote, List.map_map]
  exact List.map_id'' Glyph.meaning_ofChar text

theorem quote_injective : Function.Injective quote :=
  Function.LeftInverse.injective readLiterally_quote

/-- A pattern is a quoted text just where all its glyphs are such as quoting writes. -/
theorem mem_range_quote_iff {pattern : List Char} :
    pattern ∈ Set.range quote ↔ ∀ glyph ∈ glyphs pattern, glyph.IsQuoted := by
  constructor
  · rintro ⟨text, rfl⟩ glyph hMem
    rw [glyphs_quote] at hMem
    obtain ⟨c, -, rfl⟩ := List.mem_map.1 hMem
    exact Glyph.isQuoted_ofChar c
  · intro hQuoted
    have hSource : ∀ glyph ∈ glyphs pattern, quoteChar glyph.meaning = glyph.source := by
      intro glyph hMem
      rw [← source_ofChar, Glyph.ofChar_meaning (hQuoted glyph hMem)]
    refine ⟨readLiterally pattern, ?_⟩
    rw [readLiterally, quote, List.flatMap_map, List.flatMap_congr hSource, source_glyphs]

/-- A quoted text falls apart into quoted characters in one way only. -/
theorem uniquelyDecodable_quoteChar :
    InformationTheory.UniquelyDecodable (Set.range quoteChar) := by
  have hText {words : List (List Char)} (hWords : ∀ word ∈ words, word ∈ Set.range quoteChar) :
      words ∈ Set.range (List.map quoteChar) := by
    rw [Set.range_list_map]
    exact hWords
  intro words others hWords hOthers hSame
  obtain ⟨text, rfl⟩ := hText hWords
  obtain ⟨other, rfl⟩ := hText hOthers
  rw [← List.flatMap_def, ← List.flatMap_def] at hSame
  rw [quote_injective hSame]

/-- Quoting writes a text in the same way whatever is written already, and a text that is put
together from two as the one after the other.  What it writes is read back as the text, so that no
two texts are quoted alike, and it falls apart into quoted characters in one way only.  The patterns
that it writes are exactly those whose glyphs are `IsQuoted`: of ASCII, only letters, digits and
spaces stand by themselves, and after a backslash stands `n`, `r` or `t` or else no letter and no
digit. -/
theorem quoting_loses_nothing :
    (∀ written text, writeQuoted written text = written ++ String.ofList (quote text.toList)) ∧
    (∀ first second, quote (first ++ second) = quote first ++ quote second) ∧
    Function.LeftInverse readLiterally quote ∧ Function.Injective quote ∧
    InformationTheory.UniquelyDecodable (Set.range quoteChar) ∧
    ∀ pattern, pattern ∈ Set.range quote ↔ ∀ glyph ∈ glyphs pattern, glyph.IsQuoted :=
  ⟨writeQuoted_eq, quote_append, readLiterally_quote, quote_injective, uniquelyDecodable_quoteChar,
    fun _ => mem_range_quote_iff⟩

example : quote "a.\t\\n".toList = "a\\.\\t\\\\n".toList := by decide

end GrammarSearch.Pattern
