import GrammarSearch.Proofs.EndPatterns
import GrammarSearch.Proofs.LiteralSearch

/-!
# Regions that end as they began

A region whose end pattern is a reference to a group of its begin pattern ends exactly at the text
that the group captured, such as the closing delimiter of a here-document.  The captured text may be
anything, so also what looks like a pattern or like another reference: the reference is replaced in
one pass over the template, and what it is replaced by is quoted.

## Main results

* `resolve_reference`, `resolve_referenceLine`: the patterns that such templates resolve to.
* `closes_on_captured_text`: what a look for the end of such a region finds.
-/

namespace GrammarSearch

namespace Pattern

/-! ## Templates -/

namespace TemplatePiece

/-- Digits after a backslash are read up to where they end. -/
theorem scanFrom_digits {digits : List Char} (h : digits.all Char.isDigit = true)
    (read rest : List Char) :
    scanFrom (some read) (digits ++ rest) = scanFrom (some (digits.reverse ++ read)) rest := by
  induction digits generalizing read with
  | nil => rfl
  | cons c digits ih =>
    rw [List.all_cons, Bool.and_eq_true] at h
    rw [List.cons_append, scanFrom, if_pos h.1, ih h.2, List.reverse_cons, List.append_assoc]
    rfl

theorem ofDigits_reverse {digits : List Char} (h : digits ≠ []) :
    ofDigits digits.reverse = reference digits := by
  unfold ofDigits
  split
  case h_1 hNil => exact absurd (List.reverse_eq_nil_iff.1 hNil) h
  case h_2 => rw [List.reverse_reverse]

/-- A template that is nothing but a reference. -/
theorem scan_reference {digits : List Char} (hSome : digits ≠ [])
    (h : digits.all Char.isDigit = true) : scan ('\\' :: digits) = [reference digits] := by
  have hScan := scanFrom_digits h [] []
  rw [List.append_nil, List.append_nil] at hScan
  show scanFrom (some []) digits = _
  rw [hScan, scanFrom, ofDigits_reverse hSome]

/-- A template that is a reference between the anchors of a line. -/
theorem scan_referenceLine {digits : List Char} (hSome : digits ≠ [])
    (h : digits.all Char.isDigit = true) :
    scan ('^' :: '\\' :: digits ++ ['$']) = [verbatim '^', reference digits, verbatim '$'] := by
  have hScan := scanFrom_digits h [] ['$']
  rw [List.append_nil] at hScan
  show verbatim '^' :: scanFrom (some []) (digits ++ ['$']) = _
  rw [hScan]
  show [verbatim '^', ofDigits digits.reverse, verbatim '$'] = _
  rw [ofDigits_reverse hSome]

end TemplatePiece

open TemplatePiece

/-- What denotes an index is digits. -/
theorem digits_of_index? {digits : List Char} {group : Nat} (h : Text.index? digits = some group) :
    digits ≠ [] ∧ digits.all Char.isDigit = true := by
  unfold Text.index? at h
  split at h
  case isTrue hDigits => exact ⟨hDigits.1, hDigits.2.1⟩
  case isFalse => contradiction

section Resolving

variable {digits captured : List Char} {group : Nat} {hit : Match} {source : Line}
variable (hGroup : Text.index? digits = some group)
variable (hCaptured : hit.text? group source.chars = some captured)

include hCaptured

/-- Only a match that was found has captured something. -/
theorem found_of_text? : hit.found = true := by
  obtain ⟨groups⟩ := hit
  cases groups with
  | nil => contradiction
  | cons whole rest => rfl

include hGroup

theorem fill_reference : fill hit source.chars (reference digits) = quote captured := by
  rw [fill, hGroup, Option.bind_some, hCaptured]

/-- A reference resolves to the text of its group, quoted. -/
theorem resolve_reference :
    resolve (String.ofList ('\\' :: digits)) (some source) hit =
      String.ofList (quote captured) := by
  obtain ⟨hSome, hDigits⟩ := digits_of_index? hGroup
  rw [resolve, if_pos (found_of_text? hCaptured), String.toList_ofList,
    scan_reference hSome hDigits, List.flatMap_singleton, fill_reference hGroup hCaptured]

/-- A reference between anchors resolves to the text of its group between them, quoted. -/
theorem resolve_referenceLine :
    resolve (String.ofList ('^' :: '\\' :: digits ++ ['$'])) (some source) hit =
      String.ofList ('^' :: quote captured ++ ['$']) := by
  obtain ⟨hSome, hDigits⟩ := digits_of_index? hGroup
  rw [resolve, if_pos (found_of_text? hCaptured), String.toList_ofList,
    scan_referenceLine hSome hDigits, List.flatMap_cons, List.flatMap_cons,
    List.flatMap_singleton, fill_reference hGroup hCaptured]
  rfl

end Resolving

end Pattern

namespace Engine

open Pattern

variable {σ : Type}

/-- Without a shelf, a rule with an end pattern is looked for with the template resolved. -/
theorem closingAfresh_of_endSource {engine : Engine σ} {opened : Outcome} {rule : Rule}
    {template : String} (hRule : engine.tree.rule? opened.rule = some rule)
    (hEnd : rule.endSource = some template) (line : Line) (offset : Nat) :
    engine.closingAfresh opened line offset =
      engine.dialect.search ⟨resolve template opened.source opened.hit⟩ line offset := by
  rw [closingAfresh, hRule]
  dsimp only
  rw [hEnd]

/-- Let the dialect read literally.  Where the end pattern of a rule is a reference, written with
any number of digits, to a group that captured some text (and no match has more groups than a
machine word counts), a look for the end of the region finds the first occurrence of that text at or
after the offset, and nothing if there is none.  Where it is the reference between the anchors of a
line, it finds a line without line feeds exactly if that is the captured text. -/
theorem closes_on_captured_text {engine : Engine σ} (hDialect : engine.dialect.ReadsLiterally)
    {lines : List Line} {session : Session σ} (hReachable : engine.Reachable lines session)
    {opened : Outcome} {rule : Rule} (hRule : engine.tree.rule? opened.rule = some rule)
    {source : Line} (hSource : opened.source = some source) {digits captured : List Char}
    {group : Nat} (hGroup : Text.index? digits = some group)
    (hCaptured : opened.hit.text? group source.chars = some captured) (line : Line) :
    (rule.endSource = some (String.ofList ('\\' :: digits)) →
      ∀ before after, before ++ after = line.chars → ∃ hit,
        ((engine.closing opened line (Text.byteLength before)).run.run session).1 = .ok hit ∧
        hit.IsFirst line.chars captured (Text.byteLength before)) ∧
    (rule.endSource = some (String.ofList ('^' :: '\\' :: digits ++ ['$'])) →
      '\n' ∉ line.chars → ∃ hit,
        ((engine.closing opened line 0).run.run session).1 = .ok hit ∧
        (hit.found = true ↔ line.chars = captured)) := by
  constructor
  · intro hEnd before after hSplit
    obtain ⟨hit, hSearch, hFirst⟩ := hDialect.search_quote captured line hSplit
    refine ⟨hit, ?_, hFirst⟩
    rw [run_closing hReachable.patternShelf, closingAfresh_of_endSource hRule hEnd, hSource,
      resolve_reference hGroup hCaptured]
    exact hSearch
  · intro hEnd hLine
    obtain ⟨hit, hSearch, hFound⟩ := hDialect.search_quotedLine captured line hLine
    refine ⟨hit, ?_, hFound⟩
    rw [run_closing hReachable.patternShelf, closingAfresh_of_endSource hRule hEnd, hSource,
      resolve_referenceLine hGroup hCaptured]
    exact hSearch

/-- A region that begins with a text in angle brackets. -/
def bracketRule (endSource : String) : Rule :=
  { beginPattern := some ⟨"<(.*)>"⟩, endSource := some endSource }

/-- Regions that end where their text comes again, anywhere or as a whole line. -/
def bracketEngine : Engine Unit where
  tree := .ofRules #[bracketRule "\\01", bracketRule "^\\1$"] []
  weigher := .selectors

/-- A rule opened by brackets around what looks like a dot and a reference. -/
def openedByBrackets (rule : NodeId) : Outcome :=
  ⟨rule, ⟨[⟨0, 5⟩, ⟨1, 4⟩]⟩, .normal, some ⟨0, "<.\\1>"⟩⟩

/-- Captured dots and backslashes stand for themselves: what only the dot would match is passed
over. -/
theorem closes_on_dot_and_backslash :
    bracketEngine.dialect.ReadsLiterally ∧
    ((bracketEngine.closing (openedByBrackets ⟨0⟩) ⟨1, "x<\\1.\\1.\\1"⟩ 1).run.run
      bracketEngine.newSession).1 = .ok ⟨[⟨4, 7⟩]⟩ ∧
    Match.IsFirst ⟨[⟨4, 7⟩]⟩ (Line.chars ⟨1, "x<\\1.\\1.\\1"⟩) ['.', '\\', '1'] 1 ∧
    ∃ hit, ((bracketEngine.closing (openedByBrackets ⟨1⟩) ⟨2, ".\\1"⟩ 0).run.run
      bracketEngine.newSession).1 = .ok hit ∧ hit.found = true := by
  have hDialect : bracketEngine.dialect.ReadsLiterally := readsLiterally_standard
  have hNew : bracketEngine.Reachable [] bracketEngine.newSession := .new
  have hCaptured (rule : NodeId) : (openedByBrackets rule).hit.text? 1 (Line.chars ⟨0, "<.\\1>"⟩) =
      some ['.', '\\', '1'] := by
    show Match.text? ⟨[⟨0, 5⟩, ⟨1, 4⟩]⟩ 1 _ = _
    decide
  have hAnywhere : bracketEngine.tree.rule? (openedByBrackets ⟨0⟩).rule =
      some (bracketRule "\\01") := by decide
  have hWhole : bracketEngine.tree.rule? (openedByBrackets ⟨1⟩).rule =
      some (bracketRule "^\\1$") := by decide
  have hTwoDigits : Text.index? ['0', '1'] = some 1 := by decide
  have hOneDigit : Text.index? ['1'] = some 1 := by decide
  have hRun : ((bracketEngine.closing (openedByBrackets ⟨0⟩) ⟨1, "x<\\1.\\1.\\1"⟩ 1).run.run
      bracketEngine.newSession).1 = .ok ⟨[⟨4, 7⟩]⟩ := by decide +kernel
  obtain ⟨hFinds, -⟩ := closes_on_captured_text hDialect hNew hAnywhere rfl hTwoDigits (hCaptured _)
    ⟨1, "x<\\1.\\1.\\1"⟩
  obtain ⟨-, hMatches⟩ := closes_on_captured_text hDialect hNew hWhole rfl hOneDigit (hCaptured _)
    ⟨2, ".\\1"⟩
  obtain ⟨hit, hClosing, hFirst⟩ := hFinds (by decide) ['x'] "<\\1.\\1.\\1".toList (by decide)
  obtain ⟨alone, hAlone, hFound⟩ := hMatches (by decide) (by decide)
  obtain rfl : (⟨[⟨4, 7⟩]⟩ : Match) = hit := Except.ok.inj (hRun.symm.trans hClosing)
  exact ⟨hDialect, hRun, hFirst, alone, hAlone, hFound.2 (by decide)⟩

end Engine

end GrammarSearch
