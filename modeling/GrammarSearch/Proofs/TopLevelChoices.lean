import GrammarSearch.Proofs.ConjunctionTexts
import GrammarSearch.Weigher

/-!
# Choices inside and outside parentheses

A bar between two conjunctions makes a choice only between parentheses.  There the heavier of the
two counts (`read_inParentheses`).  Outside, reading stops at the bar and drops the conjunction
after it, unlike after a comma (`read_barred`).  So the bar outside gives the heavier one only where
that comes first.

## Main results

* `read_conjunction`, `read_barred`, `read_inParentheses`: what the three texts are read as.
* `bar_outside_drops_second_choice`: the weights of the three against each other.
-/

namespace GrammarSearch

/-- The heavier of two weights, the first of equals. -/
def Weight.larger (first second : Weight) : Weight :=
  if first.value < second.value then second else first

namespace Selector

/-- No mark of priority comes first. -/
def Unmarked (tokens : List Token) : Prop :=
  ∀ token ∈ tokens.head?, token ≠ Token.left ∧ token ≠ Token.right

/-- A text is a conjunction of the selector syntax without a mark of priority in front. -/
structure IsPlainConjunction (text : String) : Prop where
  conjunction : IsConjunction (Token.scan text.toList)
  unmarked : Unmarked (Token.scan text.toList)

/-- Two texts with a bar between them. -/
def barred (first second : String) : String :=
  first ++ " | " ++ second

/-! ## Tokens -/

theorem scan_barred (first second : String) :
    Token.scan (barred first second).toList =
      Token.scan first.toList ++ .bar :: Token.scan second.toList := by
  have hText : (barred first second).toList =
      first.toList ++ ' ' :: '|' :: ' ' :: second.toList := by
    simp [barred]
  have hBreaks : Token.Breaks (' ' :: '|' :: ' ' :: second.toList) := by
    rw [Token.breaks_cons]
    decide
  have hSpace : Token.startsWord ' ' = false := by decide
  have hBar : Token.startsWord '|' = false := by decide
  rw [hText, Token.scan_append_of_breaks hBreaks, Token.scan_cons_of_not_startsWord hSpace,
    Token.scan_cons_of_not_startsWord hBar, Token.scan_cons_of_not_startsWord hSpace]
  rfl

theorem scan_inParentheses (text : String) :
    Token.scan ("(" ++ text ++ ")").toList =
      .opening :: (Token.scan text.toList ++ [.closing]) := by
  have hText : ("(" ++ text ++ ")").toList = '(' :: (text.toList ++ [')']) := by
    simp
  have hOpens : Token.startsWord '(' = false := by decide
  have hCloses : Token.Breaks [')'] := by
    rw [Token.breaks_cons]
    decide
  rw [hText, Token.scan_cons_of_not_startsWord hOpens, Token.scan_append_of_breaks hCloses]
  rfl

/-! ## Selectors -/

/-- The conjunction of some tokens, whatever they are followed by. -/
def ReadsConjunction (tokens : List Token) (selector : Selector) : Prop :=
  ∃ parts, ReadsParts (3 * tokens.length) tokens parts ∧ conjoin parts = some selector

theorem IsConjunction.exists_readsConjunction {tokens : List Token} (h : IsConjunction tokens) :
    ∃ selector, ReadsConjunction tokens selector := by
  obtain ⟨first, others, hParts⟩ := h.exists_reads readsParts_nil
  obtain ⟨selector, hSelector⟩ := exists_conjoin first others
  rw [List.append_nil, Nat.zero_add] at hParts
  exact ⟨selector, first :: others, hParts, hSelector⟩

variable {tokens rest : List Token} {selector : Selector}

theorem ReadsConjunction.readConjunction (h : ReadsConjunction tokens selector)
    (hEnds : EndsOperands rest) : readConjunction (tokens ++ rest) = (some selector, rest) := by
  obtain ⟨parts, hParts, hSelector⟩ := h
  have hBudget : 3 * tokens.length ≤ budgetFor (tokens ++ rest).length := by
    rw [budgetFor, List.length_append]
    omega
  rw [Selector.readConjunction, hParts _ rest hEnds hBudget, ← hSelector]

/-- Reading alternatives ends after a conjunction that no comma follows. -/
theorem ReadsConjunction.readAlternatives (h : ReadsConjunction tokens selector)
    (hUnmarked : Unmarked tokens) (hEnds : EndsOperands rest) (hNoComma : rest.head? ≠ some .comma)
    (budget : Nat) :
    readAlternatives (budget + 1) .normal (tokens ++ rest) = [⟨.normal, selector⟩] := by
  have hRead := h.readConjunction hEnds
  cases tokens with
  | nil =>
    rw [List.nil_append, Selector.readConjunction, readOperands_of_ends hEnds] at hRead
    cases hRead
  | cons token tokens =>
    obtain ⟨hLeft, hRight⟩ := hUnmarked token rfl
    rw [List.cons_append] at hRead ⊢
    rw [Selector.readAlternatives, if_neg hLeft, if_neg hRight, hRead]
    split
    case h_1 hSame =>
      obtain ⟨-, hRest⟩ := Prod.mk.inj hSame
      exact absurd (congrArg List.head? hRest) hNoComma
    case h_2 hSame => rw [Option.some.inj (Prod.mk.inj hSame).1]
    case h_3 hSame => cases hSame

/-- Two conjunctions with a bar between them, in parentheses. -/
theorem ReadsConjunction.inParentheses {others : List Token} {other chosen : Selector}
    (h : ReadsConjunction tokens selector) (hOther : ReadsConjunction others other)
    (hChosen : choose [selector, other] = some chosen) :
    ReadsConjunction (.opening :: (tokens ++ .bar :: others ++ [.closing])) chosen := by
  obtain ⟨parts, hParts, hSelector⟩ := h
  obtain ⟨later, hLater, hSame⟩ := hOther
  have hChoices : ReadsChoices (3 * (tokens.length + others.length) + 2) (tokens ++ .bar :: others)
      [selector, other] :=
    hParts.next hSelector (.inl rfl) (hLater.last hSame) _ (by omega) (by omega)
  have hPart := hChoices.group hChosen []
  rw [List.append_nil] at hPart
  refine ⟨[chosen], hPart.cons readsParts_nil _ ?_ ?_, rfl⟩
  · simp only [List.length_cons, List.length_append, List.length_nil]
    omega
  · simp only [List.length_cons]
    omega

/-! ## The three texts -/

/-- A single conjunction. -/
theorem read_conjunction {text : String} (hUnmarked : Unmarked (Token.scan text.toList))
    (hRead : ReadsConjunction (Token.scan text.toList) selector) :
    read text = [⟨.normal, selector⟩] := by
  have hEnds : EndsOperands [] := trivial
  have hAll := hRead.readAlternatives hUnmarked hEnds (by simp)
    (Token.scan text.toList).length
  rw [List.append_nil] at hAll
  exact hAll

/-- Outside parentheses, what follows a bar is not read. -/
theorem read_barred {first : String} (hUnmarked : Unmarked (Token.scan first.toList))
    (hRead : ReadsConjunction (Token.scan first.toList) selector) (second : String) :
    read (barred first second) = [⟨.normal, selector⟩] := by
  have hEnds : EndsOperands (.bar :: Token.scan second.toList) := trivial
  rw [read, scan_barred]
  exact hRead.readAlternatives hUnmarked hEnds (by simp) _

/-- In parentheses, both sides of a bar are read. -/
theorem read_inParentheses {first second : String} {other chosen : Selector}
    (hFirst : ReadsConjunction (Token.scan first.toList) selector)
    (hSecond : ReadsConjunction (Token.scan second.toList) other)
    (hChosen : choose [selector, other] = some chosen) :
    read ("(" ++ barred first second ++ ")") = [⟨.normal, chosen⟩] := by
  have hWhole := hFirst.inParentheses hSecond hChosen
  rw [← scan_barred, ← scan_inParentheses] at hWhole
  refine read_conjunction ?_ hWhole
  rw [scan_inParentheses]
  rintro token ⟨⟩
  exact ⟨by decide, by decide⟩

/-! ## Weights -/

/-- A choice of two scores as the better of them, once more if they are the same. -/
theorem exists_choose_two (first second : Selector) :
    ∃ chosen, choose [first, second] = some chosen ∧
      ∀ scopes, chosen.score scopes = bestScore scopes [first, second] := by
  by_cases hSame : first = second
  · subst hSame
    refine ⟨first, by simp [choose], fun scopes => ?_⟩
    rw [bestScore, bestScore, bestScore]
    cases first.score scopes with
    | none => rfl
    | some value => simp
  · have hNew : ¬ second = first := fun hEq => hSame hEq.symm
    exact ⟨any [first, second], by simp [choose, hNew], fun scopes => by rw [score]⟩

/-- What a score weighs that is the only one and comes with no mark. -/
def plainWeight (score : Option Int) : Weight :=
  ⟨max 0 (score.getD 0), .normal⟩

theorem weightOf_of_read {text : String} (h : read text = [⟨.normal, selector⟩]) (scope : String) :
    weightOf text scope = plainWeight (selector.score (Scope.split scope)) := by
  rw [weightOf, h, List.foldl_cons, List.foldl_nil, heavier, Alternative.score, plainWeight]
  cases selector.score (Scope.split scope) with
  | none => rfl
  | some value =>
    by_cases hPositive : 0 < value
    · rw [Option.getD_some, Int.max_eq_right (Int.le_of_lt hPositive)]
      exact if_pos hPositive
    · rw [Option.getD_some, Int.max_eq_left (Int.not_lt.1 hPositive)]
      exact if_neg hPositive

theorem larger_of_priority_eq (first second : Int) (priority : Priority) :
    Weight.larger ⟨first, priority⟩ ⟨second, priority⟩ = ⟨max first second, priority⟩ := by
  rw [Weight.larger]
  split
  case isTrue hLess => rw [Int.max_eq_right (Int.le_of_lt hLess)]
  case isFalse hNot => rw [Int.max_eq_left (Int.not_lt.1 hNot)]

/-- The better of two scores weighs as the heavier of both does. -/
theorem plainWeight_bestScore (scopes : List String) (first second : Selector) :
    plainWeight (bestScore scopes [first, second]) =
      (plainWeight (first.score scopes)).larger (plainWeight (second.score scopes)) := by
  rw [plainWeight, plainWeight, plainWeight, larger_of_priority_eq, bestScore, bestScore, bestScore]
  congr 1
  cases first.score scopes with
  | none =>
    cases second.score scopes with
    | none => rfl
    | some other =>
      simp only [Option.getD_some, Option.getD_none]
      omega
  | some value =>
    cases second.score scopes with
    | none =>
      simp only [Option.getD_some, Option.getD_none]
      omega
    | some other =>
      simp only [Option.getD_some]
      omega

/-- Outside parentheses a bar drops the conjunction after it, while in parentheses the heavier of
the two counts.  So the bar outside gives the heavier one just where that is the first. -/
theorem bar_outside_drops_second_choice {first second : String} (hFirst : IsPlainConjunction first)
    (hSecond : IsPlainConjunction second) (scope : String) :
    weightOf (barred first second) scope = weightOf first scope ∧
    weightOf ("(" ++ barred first second ++ ")") scope =
      (weightOf first scope).larger (weightOf second scope) ∧
    (weightOf (barred first second) scope = (weightOf first scope).larger (weightOf second scope) ↔
      (weightOf second scope).value ≤ (weightOf first scope).value) := by
  obtain ⟨one, hOne⟩ := hFirst.conjunction.exists_readsConjunction
  obtain ⟨other, hOther⟩ := hSecond.conjunction.exists_readsConjunction
  obtain ⟨chosen, hChosen, hScore⟩ := exists_choose_two one other
  have hBarred : weightOf (barred first second) scope = weightOf first scope := by
    rw [weightOf_of_read (read_barred hFirst.unmarked hOne second),
      weightOf_of_read (read_conjunction hFirst.unmarked hOne)]
  refine ⟨hBarred, ?_, ?_⟩
  · rw [weightOf_of_read (read_inParentheses hOne hOther hChosen),
      weightOf_of_read (read_conjunction hFirst.unmarked hOne),
      weightOf_of_read (read_conjunction hSecond.unmarked hOther), hScore, plainWeight_bestScore]
  · rw [hBarred, Weight.larger]
    split
    case isTrue hLess =>
      exact iff_of_false (fun hSame => Int.ne_of_lt hLess (congrArg Weight.value hSame))
        (Int.not_le.2 hLess)
    case isFalse hNot => exact iff_of_true rfl (Int.not_lt.1 hNot)

theorem isOperand_name {text : List Char} (h : Token.isName text = true) :
    IsOperand [.word text] :=
  @IsOperand.names [text] (List.cons_ne_nil _ _) (List.forall_mem_singleton.2 h)

/-- A name that is scanned as one word is a conjunction. -/
theorem isPlainConjunction_name {text : String}
    (hScan : Token.scan text.toList = [.word text.toList])
    (hName : Token.isName text.toList = true)
    (hMark : Token.word text.toList ≠ Token.left ∧ Token.word text.toList ≠ Token.right) :
    IsPlainConjunction text := by
  refine ⟨hScan ▸ .one (isOperand_name hName), ?_⟩
  rw [hScan]
  rintro token ⟨⟩
  exact hMark

/-- A conjunction that holds outside comments and strings, before one that holds everywhere in the
text: the second one counts in a comment, but only in parentheses. -/
theorem bar_outside_drops_text :
    IsPlainConjunction "source -(comment | string)" ∧ IsPlainConjunction "text" ∧
    weightOf "source -(comment | string) | text" "text source comment" = .notApplicable ∧
    weightOf "(source -(comment | string) | text)" "text source comment" = ⟨101, .normal⟩ := by
  have hFirst : IsPlainConjunction "source -(comment | string)" := by
    have hScan : Token.scan "source -(comment | string)".toList =
        [.word "source".toList, .minus, .opening, .word "comment".toList, .bar,
          .word "string".toList, .closing] := by decide
    have hChoice : IsChoice ([.word "comment".toList] ++ .bar :: [.word "string".toList]) :=
      .more (.one (isOperand_name (by decide))) (.inl rfl)
        (.one (.one (isOperand_name (by decide))))
    refine ⟨?_, ?_⟩
    · rw [hScan]
      exact .more (isOperand_name (by decide)) (.one (.exclude (.group hChoice)))
    · rw [hScan]
      rintro token ⟨⟩
      exact ⟨by decide, by decide⟩
  have hSecond : IsPlainConjunction "text" :=
    isPlainConjunction_name (by decide) (by decide) ⟨by decide, by decide⟩
  obtain ⟨hOutside, hInside, -⟩ :=
    bar_outside_drops_second_choice hFirst hSecond "text source comment"
  refine ⟨hFirst, hSecond, ?_, ?_⟩
  · apply hOutside.trans
    decide
  · apply hInside.trans
    decide

/-- In the scope `b`, which the second name covers, the bar outside parentheses makes the choice
weigh nothing. -/
theorem second_name_lost_outside :
    IsPlainConjunction "a" ∧ IsPlainConjunction "b" ∧
    (weightOf "a" "b").larger (weightOf "b" "b") = ⟨101, .normal⟩ ∧
    weightOf "(a | b)" "b" = ⟨101, .normal⟩ ∧
    weightOf "a | b" "b" = ⟨0, .normal⟩ := by
  have hName {text : String} (h : Token.scan text.toList = [.word text.toList] ∧
      Token.isName text.toList = true ∧ Token.word text.toList ≠ Token.left ∧
      Token.word text.toList ≠ Token.right) : IsPlainConjunction text :=
    isPlainConjunction_name h.1 h.2.1 h.2.2
  exact ⟨hName (by decide), hName (by decide), by decide, by decide, by decide⟩

end Selector

end GrammarSearch
