import GrammarSearch.Selector.Reader
import Mathlib.Data.List.Infix

/-!
# Printed selectors

`Selector.print` writes a selector out: the names of a path with a space between two, every part of
a conjunction or a choice in parentheses, and an exclusion as `-` with its part in parentheses.
Every group is closed, so the text says by itself how the selector is put together.

Scanning such a text gives the tokens one expects.  The one general fact behind it is that a text
can be scanned in two parts wherever no word goes on (`Token.scan_append_of_breaks`); parentheses
and separators are such places.  What makes a text a name is `IsPlainName`: it is one word, is not
read as a mark of priority, and is not cut short.

## Main results

* `Token.scan_append_of_breaks`: a scan in two parts.
* `tokens_path` to `tokens_exclude`: the tokens of a printed selector.
-/

namespace GrammarSearch

/-- A text that stands for itself as a name of a selector. -/
structure IsPlainName (name : String) : Prop where
  nonempty : name ≠ ""
  letters : Selector.Token.isName name.toList = true
  not_minus : ¬ ['-'] <+: name.toList
  not_star : ¬ ['*'] <+: name.toList
  not_left : ¬ ['L', ':'] <+: name.toList
  not_right : ¬ ['R', ':'] <+: name.toList
  not_cut : ¬ ['.', '*'] <:+: name.toList

theorem isPlainName_iff {name : String} :
    IsPlainName name ↔ name ≠ "" ∧ Selector.Token.isName name.toList = true ∧
      ¬ ['-'] <+: name.toList ∧ ¬ ['*'] <+: name.toList ∧ ¬ ['L', ':'] <+: name.toList ∧
      ¬ ['R', ':'] <+: name.toList ∧ ¬ ['.', '*'] <:+: name.toList :=
  ⟨fun ⟨h₁, h₂, h₃, h₄, h₅, h₆, h₇⟩ => ⟨h₁, h₂, h₃, h₄, h₅, h₆, h₇⟩,
    fun ⟨h₁, h₂, h₃, h₄, h₅, h₆, h₇⟩ => ⟨h₁, h₂, h₃, h₄, h₅, h₆, h₇⟩⟩

instance (name : String) : Decidable (IsPlainName name) :=
  decidable_of_iff _ isPlainName_iff.symm

/-- The mark in front of an alternative of a priority. -/
def Priority.mark : Priority → String
  | high => "L:"
  | low => "R:"
  | normal => ""

namespace Selector

mutual

/-- A selector in words. -/
def print : Selector → String
  | path names => " ".intercalate names
  | all parts => " ".intercalate (printEach parts)
  | any parts => " | ".intercalate (printEach parts)
  | exclude part => "- (" ++ part.print ++ ")"

/-- Selectors in words, each in parentheses. -/
def printEach : List Selector → List String
  | [] => []
  | part :: parts => ("(" ++ part.print ++ ")") :: printEach parts

end

/-- A selector whose text says how it is put together: paths have names, conjunctions and choices
have two parts at least, and no part of a choice stands in it twice. -/
inductive Printable : Selector → Prop
  | path {names : List String} (hSome : names ≠ []) (hNames : ∀ name ∈ names, IsPlainName name) :
      Printable (path names)
  | all {parts : List Selector} (hTwo : 2 ≤ parts.length)
      (hParts : ∀ part ∈ parts, Printable part) : Printable (all parts)
  | any {parts : List Selector} (hTwo : 2 ≤ parts.length) (hDistinct : parts.Nodup)
      (hParts : ∀ part ∈ parts, Printable part) : Printable (any parts)
  | exclude {part : Selector} (hPart : Printable part) : Printable (exclude part)

/-- A selector in words as it stands in an alternative, where a choice needs parentheses. -/
def printWhole : Selector → String
  | any parts => "(" ++ (any parts).print ++ ")"
  | selector => selector.print

end Selector

namespace Alternative

/-- An alternative in words. -/
def print (alternative : Alternative) : String :=
  alternative.priority.mark ++ alternative.selector.printWhole

/-- Alternatives in words. -/
def printAll (alternatives : List Alternative) : String :=
  ", ".intercalate (alternatives.map print)

end Alternative

namespace Selector

namespace Token

/-! ## Scanning in parts -/

/-- No word goes on with this text. -/
def Breaks (text : List Char) : Prop :=
  ∀ c ∈ text.head?, continuesWord c = false

theorem breaks_cons {c : Char} {rest : List Char} :
    Breaks (c :: rest) ↔ continuesWord c = false := by
  simp [Breaks]

theorem startsWord_of_not_continuesWord {c : Char} (h : continuesWord c = false) :
    startsWord c = false := by
  simp only [continuesWord, Bool.or_eq_false_iff] at h
  exact h.1.1

theorem scan_cons_of_not_startsWord {c : Char} (h : startsWord c = false) (rest : List Char) :
    scan (c :: rest) = (ofMark? c).toList ++ scan rest := by
  rw [scan, scanFrom, h]
  rfl

/-- What a scan does at a character after the start of a word. -/
theorem scanFrom_pending {pending : List Char} (hPending : pending ≠ []) (c : Char)
    (rest : List Char) :
    scanFrom pending (c :: rest) =
      if c = ':' ∧ (pending = ['L'] ∨ pending = ['R']) then
        word (c :: pending).reverse :: scan rest
      else if continuesWord c then
        scanFrom (c :: pending) rest
      else
        ofPending pending ++ (ofMark? c).toList ++ scan rest := by
  cases pending with
  | nil => exact absurd rfl hPending
  | cons d pending => rfl

/-- A word that is pending ends where it cannot go on. -/
theorem scanFrom_of_breaks {pending rest : List Char} (h : Breaks rest) :
    scanFrom pending rest = ofPending pending ++ scan rest := by
  cases rest with
  | nil =>
    rw [scan, scanFrom, scanFrom, ofPending, List.append_nil]
  | cons c rest =>
    have hContinues : continuesWord c = false := breaks_cons.1 h
    have hStarts : startsWord c = false := startsWord_of_not_continuesWord hContinues
    by_cases hPending : pending = []
    · subst hPending
      rfl
    · have hColon : c ≠ ':' := by
        rintro rfl
        exact absurd hContinues (by decide)
      rw [scanFrom_pending hPending, if_neg (fun hMark => hColon hMark.1), hContinues,
        if_neg Bool.false_ne_true, scan_cons_of_not_startsWord hStarts, List.append_assoc]

/-- A text is scanned in two parts where no word goes on. -/
theorem scan_append_of_breaks {rest : List Char} (h : Breaks rest) (text : List Char) :
    scan (text ++ rest) = scan text ++ scan rest := by
  suffices hFrom : ∀ pending, scanFrom pending (text ++ rest) =
      scanFrom pending text ++ scan rest from hFrom []
  intro pending
  fun_induction scanFrom pending text with
  | case1 pending =>
    rw [List.nil_append, scanFrom_of_breaks h]
  | case2 c text hStarts ih =>
    simp only [List.cons_append, scanFrom, hStarts, if_true, ih]
  | case3 c text hStarts ih =>
    simp only [List.cons_append, scanFrom, hStarts, Bool.false_eq_true, if_false, ih,
      List.append_assoc]
  | case4 pending c text hPending hMark ih =>
    rw [List.cons_append, scanFrom_pending hPending, if_pos hMark, scan, ih, List.cons_append]
  | case5 pending c text hPending hMark hContinues ih =>
    rw [List.cons_append, scanFrom_pending hPending, if_neg hMark, if_pos hContinues, ih]
  | case6 pending c text hPending hMark hContinues ih =>
    rw [List.cons_append, scanFrom_pending hPending, if_neg hMark, if_neg hContinues, scan, ih]
    simp only [List.append_assoc]

theorem scan_append_of_marks {marks : List Char} (h : ∀ c ∈ marks, startsWord c = false)
    (rest : List Char) : scan (marks ++ rest) = scan marks ++ scan rest := by
  induction marks with
  | nil => rfl
  | cons c marks ih =>
    obtain ⟨hFirst, hMarks⟩ := List.forall_mem_cons.1 h
    rw [List.cons_append, scan_cons_of_not_startsWord hFirst, scan_cons_of_not_startsWord hFirst,
      ih hMarks, List.append_assoc]

/-- Texts with a separator between two are scanned one by one, and the separator between them. -/
theorem scan_intercalate {separator : List Char} (hSome : separator ≠ [])
    (hBreaks : separator.all (fun c => !continuesWord c) = true) (texts : List (List Char)) :
    scan (separator.intercalate texts) = (scan separator).intercalate (texts.map scan) := by
  have hEnds : ∀ c ∈ separator, continuesWord c = false :=
    fun c hMem => by simpa using List.all_eq_true.1 hBreaks c hMem
  have hMarks : ∀ c ∈ separator, startsWord c = false :=
    fun c hMem => startsWord_of_not_continuesWord (hEnds c hMem)
  have hFirst (rest : List Char) : Breaks (separator ++ rest) := by
    cases separator with
    | nil => exact absurd rfl hSome
    | cons c separator => exact breaks_cons.2 (hEnds c List.mem_cons_self)
  induction texts with
  | nil => rfl
  | cons text texts ih =>
    cases texts with
    | nil => simp
    | cons next texts =>
      rw [List.intercalate_cons_cons, List.append_assoc, scan_append_of_breaks (hFirst _),
        scan_append_of_marks hMarks, ih]
      simp only [List.map_cons, List.intercalate_cons_cons, List.append_assoc]

/-- Spaces only separate. -/
theorem scan_intercalate_space (texts : List String) :
    scan (" ".intercalate texts).toList = texts.flatMap fun text => scan text.toList := by
  have hSpace : " ".toList.all (fun c => !continuesWord c) = true := by decide
  have hScan : scan " ".toList = [] := by decide
  have hJoin (parts : List (List Token)) : [].intercalate parts = parts.flatten := by
    induction parts with
    | nil => rfl
    | cons part parts ih => cases parts <;> simp_all [List.intercalate_cons_cons]
  rw [String.toList_intercalate, scan_intercalate (by decide) hSpace, hScan, hJoin,
    List.flatMap_def, List.map_map]
  rfl

/-! ## Names -/

/-- A word that goes on to the end of the text is one token, unless a mark of priority ends it. -/
theorem scanFrom_word {pending rest : List Char} (hPending : pending ≠ [])
    (hWord : ∀ c ∈ rest, continuesWord c = true)
    (hMark : ':' ∈ rest.head? → pending ≠ ['L'] ∧ pending ≠ ['R']) :
    scanFrom pending rest = [word (pending.reverse ++ rest)] := by
  induction rest generalizing pending with
  | nil =>
    rw [scanFrom, List.append_nil]
    cases pending with
    | nil => exact absurd rfl hPending
    | cons d pending => rfl
  | cons c rest ih =>
    obtain ⟨hFirst, hRest⟩ := List.forall_mem_cons.1 hWord
    have hGoesOn : ¬ (c = ':' ∧ (pending = ['L'] ∨ pending = ['R'])) := by
      rintro ⟨rfl, rfl | rfl⟩
      · exact (hMark rfl).1 rfl
      · exact (hMark rfl).2 rfl
    have hLonger (d : Char) : c :: pending ≠ [d] := fun h => hPending (List.cons.inj h).2
    rw [scanFrom_pending hPending, if_neg hGoesOn, if_pos hFirst,
      ih (List.cons_ne_nil c pending) hRest fun _ => ⟨hLonger 'L', hLonger 'R'⟩]
    simp

theorem continuesWord_of_isName {text : List Char} (h : isName text = true) :
    ∀ c ∈ text, continuesWord c = true := by
  intro c hMem
  have hLetter := List.all_eq_true.1 h c hMem
  simp only [Bool.or_eq_true, beq_iff_eq] at hLetter
  rcases hLetter with ((((hAlphanum | rfl) | rfl) | rfl) | rfl) | rfl
  · simp [continuesWord, startsWord, Text.isWord_of_isAlphanum hAlphanum]
  all_goals decide

/-- A name is one word. -/
theorem scan_name {name : String} (h : IsPlainName name) :
    scan name.toList = [word name.toList] := by
  obtain ⟨hSome, hName, hMinus, hStar, hLeft, hRight, -⟩ := h
  cases hText : name.toList with
  | nil => exact absurd (String.toList_eq_nil_iff.1 hText) hSome
  | cons c rest =>
    rw [hText] at hName hMinus hStar hLeft hRight
    obtain ⟨hFirst, hRest⟩ := List.forall_mem_cons.1 (continuesWord_of_isName hName)
    have hStarts : startsWord c = true := by
      simp only [continuesWord, Bool.or_eq_true, beq_iff_eq] at hFirst
      rcases hFirst with (hStarts | rfl) | rfl
      · exact hStarts
      · exact absurd (List.prefix_append ['*'] rest) hStar
      · exact absurd (List.prefix_append ['-'] rest) hMinus
    have hOne : ':' ∈ rest.head? → [c] ≠ ['L'] ∧ [c] ≠ ['R'] := by
      intro hColon
      obtain ⟨rest, rfl⟩ : ∃ others, rest = ':' :: others := List.head?_eq_some_iff.1 hColon
      refine ⟨fun hSame => hLeft ?_, fun hSame => hRight ?_⟩
      · rw [(List.cons.inj hSame).1]
        exact List.prefix_append ['L', ':'] rest
      · rw [(List.cons.inj hSame).1]
        exact List.prefix_append ['R', ':'] rest
    rw [scan, scanFrom, if_pos hStarts, scanFrom_word (List.cons_ne_nil c []) hRest hOne]
    rfl

end Token

/-- A name counts as it stands. -/
theorem nameOf_name {name : String} (h : IsPlainName name) : nameOf name.toList = name := by
  have hHead : ∀ text : List Char, ¬ ['.', '*'] <:+: text → nameHead text = text := by
    intro text hPlain
    fun_induction nameHead text with
    | case1 => rfl
    | case2 rest => exact absurd (List.prefix_append ['.', '*'] rest).isInfix hPlain
    | case3 c rest hOther ih =>
      rw [ih fun hInfix => hPlain (hInfix.trans (List.suffix_cons c rest).isInfix)]
  rw [nameOf, if_pos (hHead name.toList h.not_cut), String.ofList_toList]

/-! ## The tokens of a printed selector -/

/-- The tokens of a selector in words. -/
def tokens (selector : Selector) : List Token :=
  Token.scan selector.print.toList

/-- The tokens of a selector in parentheses. -/
def groupTokens (selector : Selector) : List Token :=
  .opening :: selector.tokens ++ [.closing]

theorem scan_group (selector : Selector) :
    Token.scan ("(" ++ selector.print ++ ")").toList = selector.groupTokens := by
  have hText : ("(" ++ selector.print ++ ")").toList =
      '(' :: (selector.print.toList ++ [')']) := by
    simp
  have hOpens : Token.startsWord '(' = false := by decide
  have hCloses : Token.Breaks [')'] := by
    rw [Token.breaks_cons]
    decide
  rw [hText, Token.scan_cons_of_not_startsWord hOpens, Token.scan_append_of_breaks hCloses]
  rfl

theorem scan_printEach (parts : List Selector) :
    (printEach parts).map (fun text => Token.scan text.toList) = parts.map groupTokens := by
  induction parts with
  | nil => rfl
  | cons part parts ih => rw [printEach, List.map_cons, scan_group, ih, List.map_cons]

theorem tokens_path {names : List String} (h : ∀ name ∈ names, IsPlainName name) :
    (path names).tokens = names.map fun name => .word name.toList := by
  rw [tokens, print, Token.scan_intercalate_space, List.map_eq_flatMap]
  exact List.flatMap_congr fun name hMem => Token.scan_name (h name hMem)

theorem tokens_all (parts : List Selector) :
    (all parts).tokens = parts.flatMap groupTokens := by
  rw [tokens, print, Token.scan_intercalate_space, List.flatMap_def, scan_printEach,
    ← List.flatMap_def]

theorem tokens_any (parts : List Selector) :
    (any parts).tokens = [Token.bar].intercalate (parts.map groupTokens) := by
  have hBar : " | ".toList.all (fun c => !Token.continuesWord c) = true := by decide
  have hScan : Token.scan " | ".toList = [.bar] := by decide
  rw [tokens, print, String.toList_intercalate, Token.scan_intercalate (by decide) hBar, hScan,
    List.map_map, ← scan_printEach]
  rfl

theorem tokens_exclude (part : Selector) :
    (exclude part).tokens = .minus :: part.groupTokens := by
  have hText : ("- (" ++ part.print ++ ")").toList =
      '-' :: ' ' :: ("(" ++ part.print ++ ")").toList := by
    simp
  have hMinus : Token.startsWord '-' = false := by decide
  have hSpace : Token.startsWord ' ' = false := by decide
  rw [tokens, print, hText, Token.scan_cons_of_not_startsWord hMinus,
    Token.scan_cons_of_not_startsWord hSpace, scan_group]
  rfl

end Selector
end GrammarSearch
