import GrammarSearch.Proofs.SelectorRoundTrip

/-!
# The grammar of selectors

`IsConjunction` says which tokens are a conjunction of the selector syntax, apart from how they are
read: operands one after another, each of them names, an operand after `-`, or choices in
parentheses with a bar or a comma between two (`IsOperand`, `IsChoice`).

Reading takes the tokens of a conjunction as a whole, up to where operands end
(`IsConjunction.exists_reads`).  The grammar leaves open where one path ends and the next one
begins, and reading takes as many names into a path as it can.  So what an operand is read as
depends on the tokens after it, and the statements carry these tokens along, read already
(`ReadsParts`).

## Main results

* `IsOperand.exists_reads`, `IsConjunction.exists_reads`, `IsChoice.exists_reads`: every form of the
  grammar is read, up to its end.
-/

namespace GrammarSearch.Selector

mutual

/-- The tokens of an operand. -/
inductive IsOperand : List Token → Prop
  | names {words : List (List Char)} (hSome : words ≠ [])
      (hNames : ∀ word ∈ words, Token.isName word = true) : IsOperand (words.map .word)
  | exclude {tokens : List Token} (h : IsOperand tokens) : IsOperand (.minus :: tokens)
  | group {tokens : List Token} (h : IsChoice tokens) :
      IsOperand (.opening :: (tokens ++ [.closing]))

/-- The tokens of a conjunction: operands one after another, at least one. -/
inductive IsConjunction : List Token → Prop
  | one {tokens : List Token} (h : IsOperand tokens) : IsConjunction tokens
  | more {tokens others : List Token} (h : IsOperand tokens) (hOthers : IsConjunction others) :
      IsConjunction (tokens ++ others)

/-- The tokens between parentheses: conjunctions with a separator between two, at least one. -/
inductive IsChoice : List Token → Prop
  | one {tokens : List Token} (h : IsConjunction tokens) : IsChoice tokens
  | more {tokens others : List Token} {separator : Token} (h : IsConjunction tokens)
      (hSeparator : separator = .bar ∨ separator = .comma) (hOthers : IsChoice others) :
      IsChoice (tokens ++ separator :: others)

end

/-! ## Reading up to the end of operands -/

/-- With a budget of `least` or more, these operands are read off the tokens, and nothing is left of
the tokens. -/
def ReadsParts (least : Nat) (tokens : List Token) (parts : List Selector) : Prop :=
  ∀ budget rest, EndsOperands rest → least ≤ budget →
    readOperands budget (tokens ++ rest) = (parts, rest)

/-- With a budget of `least` or more, this operand is read off the tokens first. -/
def ReadsPart (least : Nat) (tokens : List Token) (part : Selector) (left : List Token) : Prop :=
  ∀ budget rest, EndsOperands rest → least ≤ budget →
    readOperand budget (tokens ++ rest) = (some part, left ++ rest)

variable {tokens left rest : List Token} {part : Selector} {parts : List Selector}
variable {least : Nat}

theorem readsParts_nil : ReadsParts 0 [] [] :=
  fun budget _ hEnds _ => readOperands_of_ends hEnds budget

/-- The operand read first, and those read off what it leaves. -/
theorem ReadsPart.cons {cost : Nat} (h : ReadsPart cost tokens part left)
    (hLeft : ReadsParts least left parts) (bound : Nat) (hCost : cost < bound)
    (hLeast : least < bound) : ReadsParts bound tokens (part :: parts) := by
  intro budget rest hEnds hBudget
  obtain ⟨budget, rfl⟩ : ∃ fewer, budget = fewer + 1 := ⟨budget - 1, by omega⟩
  rw [readOperands, h budget rest hEnds (by omega)]
  simp only [hLeft budget rest hEnds (by omega)]

/-! ## Names -/

/-- Either no name comes first, or a word does that is one. -/
theorem readNames_cases (tokens : List Token) :
    readNames tokens = ([], tokens) ∨
      ∃ text more first names left, tokens = .word text :: more ∧
        readNames tokens = (first :: names, left) := by
  fun_cases readNames tokens with
  | case1 text more hName names left hRead =>
    exact .inr ⟨text, more, nameOf text, names, left, rfl, rfl⟩
  | case2 text more hName => exact .inl rfl
  | case3 => exact .inl rfl

/-- What is read as names ends where operands end. -/
theorem readNames_append_of_ends (hEnds : EndsOperands rest) (tokens : List Token) :
    readNames (tokens ++ rest) = ((readNames tokens).1, (readNames tokens).2 ++ rest) := by
  fun_induction readNames tokens with
  | case1 text tokens hName names left hRead ih =>
    rw [hRead] at ih
    rw [List.cons_append, readNames, if_pos hName, ih]
  | case2 text tokens hName =>
    rw [List.cons_append, readNames, if_neg hName]
  | case3 tokens hOther =>
    cases tokens with
    | nil => exact readNames_of_ends hEnds
    | cons token tokens =>
      rw [List.cons_append, readNames]
      intro text others hSame
      exact hOther text tokens (by rw [(List.cons.inj hSame).1])

theorem readNames_words {words : List (List Char)} (h : ∀ word ∈ words, Token.isName word = true)
    (tokens : List Token) :
    readNames (words.map .word ++ tokens) =
      (words.map nameOf ++ (readNames tokens).1, (readNames tokens).2) := by
  induction words with
  | nil => rfl
  | cons word words ih =>
    obtain ⟨hWord, hWords⟩ := List.forall_mem_cons.1 h
    rw [List.map_cons, List.cons_append, readNames, if_pos hWord, ih hWords]
    rfl

/-- A path is read where a word comes first that is a name. -/
theorem readOperand_word {text : List Char} {first : String} {names : List String}
    (h : readNames (.word text :: tokens) = (first :: names, left)) (budget : Nat) :
    readOperand (budget + 1) (.word text :: tokens) = (some (path (first :: names)), left) := by
  rw [readOperand, h]
  · intro more hMore
    cases hMore
  · intro more hMore
    cases hMore

/-- Tokens that are read as operands are so after the names at their start, too. -/
theorem ReadsParts.afterNames (h : ReadsParts least tokens parts) :
    ∃ others, ReadsParts least (readNames tokens).2 others := by
  rcases readNames_cases tokens with hNone | ⟨text, more, first, names, left, rfl, hRead⟩
  · rw [hNone]
    exact ⟨parts, h⟩
  · rw [hRead]
    refine ⟨parts.tail, fun budget rest hEnds hBudget => ?_⟩
    have hNames := readNames_append_of_ends hEnds (.word text :: more)
    rw [hRead, List.cons_append] at hNames
    cases budget with
    | zero =>
      -- Without a budget nothing is read, but the name in front had to be.
      have hWhole := h 0 rest hEnds hBudget
      rw [readOperands] at hWhole
      have hLength := congrArg (fun read => read.2.length) hWhole
      simp only [List.length_append, List.length_cons] at hLength
      omega
    | succ budget =>
      have hWhole := h (budget + 2) rest hEnds (by omega)
      rw [List.cons_append, readOperands, readOperand_word hNames] at hWhole
      dsimp only at hWhole
      obtain ⟨hParts, hRest⟩ := Prod.mk.inj hWhole
      rw [← hParts, List.tail_cons]
      exact Prod.ext rfl hRest

/-! ## Groups -/

theorem exists_choose (part : Selector) (parts : List Selector) :
    ∃ chosen, choose (part :: parts) = some chosen := by
  have hKept : ∀ kept : List Selector, kept ≠ [] →
      parts.foldl (fun kept part => if kept.contains part then kept else kept ++ [part]) kept ≠ []
      := by
    induction parts with
    | nil => exact fun kept hSome => hSome
    | cons next parts ih =>
      intro kept hSome
      refine ih _ ?_
      dsimp only
      split
      · exact hSome
      · simp
  have hFirst := hKept [part] (List.cons_ne_nil _ _)
  rw [choose]
  split
  case h_1 hNone => exact absurd hNone hFirst
  case h_2 chosen _ => exact ⟨chosen, rfl⟩
  case h_3 => exact ⟨_, rfl⟩

theorem exists_conjoin (part : Selector) (parts : List Selector) :
    ∃ joined, conjoin (part :: parts) = some joined := by
  cases parts with
  | nil => exact ⟨part, rfl⟩
  | cons next parts => exact ⟨all (part :: next :: parts), rfl⟩

/-- With a budget of `least` or more, these choices are read off the tokens, up to the parenthesis
that closes them. -/
def ReadsChoices (least : Nat) (tokens : List Token) (parts : List Selector) : Prop :=
  ∀ budget rest, least ≤ budget →
    readChoices budget (tokens ++ .closing :: rest) = (parts, .closing :: rest)

theorem ReadsParts.last {joined : Selector} (h : ReadsParts least tokens parts)
    (hJoined : conjoin parts = some joined) : ReadsChoices (least + 1) tokens [joined] := by
  intro budget rest hBudget
  obtain ⟨budget, rfl⟩ : ∃ fewer, budget = fewer + 1 := ⟨budget - 1, by omega⟩
  rw [readChoices, h budget (.closing :: rest) trivial (by omega)]
  simp only [hJoined, afterSeparator?]

theorem ReadsParts.next {joined : Selector} {separator : Token} {others : List Token}
    {choices : List Selector} {later : Nat} (h : ReadsParts least tokens parts)
    (hJoined : conjoin parts = some joined) (hSeparator : separator = .bar ∨ separator = .comma)
    (hOthers : ReadsChoices later others choices) (bound : Nat) (hLeast : least < bound)
    (hLater : later < bound) :
    ReadsChoices bound (tokens ++ separator :: others) (joined :: choices) := by
  intro budget rest hBudget
  obtain ⟨budget, rfl⟩ : ∃ fewer, budget = fewer + 1 := ⟨budget - 1, by omega⟩
  have hRead := hOthers budget rest (by omega)
  have hAfter (more : List Token) : EndsOperands (separator :: more) ∧
      afterSeparator? (separator :: more) = some more := by
    rcases hSeparator with rfl | rfl
    · exact ⟨trivial, rfl⟩
    · exact ⟨trivial, rfl⟩
  rw [List.append_assoc, List.cons_append, readChoices, h budget _ (hAfter _).1 (by omega)]
  simp only [hJoined, (hAfter _).2, hRead]

/-- Choices in parentheses are an operand. -/
theorem ReadsChoices.group {chosen : Selector} (h : ReadsChoices least tokens parts)
    (hChosen : choose parts = some chosen) (more : List Token) :
    ReadsPart (least + 1) (.opening :: (tokens ++ [.closing]) ++ more) chosen more := by
  intro budget rest _ hBudget
  obtain ⟨budget, rfl⟩ : ∃ fewer, budget = fewer + 1 := ⟨budget - 1, by omega⟩
  have hText : .opening :: (tokens ++ [.closing]) ++ more ++ rest =
      .opening :: (tokens ++ .closing :: (more ++ rest)) := by
    simp
  rw [hText, readOperand, h budget (more ++ rest) (by omega)]
  simp only [hChosen, skipClosing]

/-! ## Every form of the grammar is read -/

mutual

/-- An operand is read, with more names of its last path where the tokens after it go on with
some, and what is left of them is read, too. -/
theorem IsOperand.exists_reads : ∀ {tokens : List Token}, IsOperand tokens →
    ∀ {more : List Token} {parts : List Selector} {least : Nat}, ReadsParts least more parts →
    ∃ cost part left others, cost < 3 * tokens.length ∧
      ReadsPart cost (tokens ++ more) part left ∧ ReadsParts least left others
  | _, @IsOperand.names words hSome hNames, more, parts, least, hMore => by
    -- Reading does not stop at the end of these names: names that follow go into the same path.
    obtain ⟨others, hOthers⟩ := hMore.afterNames
    obtain ⟨text, words, rfl⟩ := List.exists_cons_of_ne_nil hSome
    refine ⟨1, path ((text :: words).map nameOf ++ (readNames more).1), (readNames more).2, others,
      ?_, ?_, hOthers⟩
    · rw [List.length_map, List.length_cons]
      omega
    · intro budget rest hEnds hBudget
      obtain ⟨budget, rfl⟩ : ∃ fewer, budget = fewer + 1 := ⟨budget - 1, by omega⟩
      have hRead := readNames_append_of_ends hEnds ((text :: words).map .word ++ more)
      rw [readNames_words hNames] at hRead
      exact readOperand_word hRead budget
  | _, @IsOperand.exclude tokens h, more, parts, least, hMore => by
    obtain ⟨cost, part, left, others, hCost, hPart, hLeft⟩ := h.exists_reads hMore
    refine ⟨cost + 1, .exclude part, left, others, ?_, ?_, hLeft⟩
    · rw [List.length_cons]
      omega
    · intro budget rest hEnds hBudget
      obtain ⟨budget, rfl⟩ : ∃ fewer, budget = fewer + 1 := ⟨budget - 1, by omega⟩
      rw [List.cons_append, List.cons_append, readOperand, hPart budget rest hEnds (by omega)]
      rfl
  | _, @IsOperand.group tokens h, more, parts, least, hMore => by
    obtain ⟨choice, choices, hChoices⟩ := h.exists_reads
    obtain ⟨chosen, hChosen⟩ := exists_choose choice choices
    refine ⟨_, chosen, more, parts, ?_, hChoices.group hChosen more, hMore⟩
    simp only [List.length_cons, List.length_append, List.length_nil]
    omega

theorem IsConjunction.exists_reads : ∀ {tokens : List Token}, IsConjunction tokens →
    ∀ {more : List Token} {parts : List Selector} {least : Nat}, ReadsParts least more parts →
    ∃ first others, ReadsParts (least + 3 * tokens.length) (tokens ++ more) (first :: others)
  | _, .one h, more, parts, least, hMore => by
    obtain ⟨cost, part, left, others, hCost, hPart, hLeft⟩ := h.exists_reads hMore
    exact ⟨part, others, hPart.cons hLeft _ (by omega) (by omega)⟩
  | _, @IsConjunction.more tokens others h hOthers, more, parts, least, hMore => by
    obtain ⟨first, later, hLater⟩ := hOthers.exists_reads hMore
    obtain ⟨cost, part, left, all, hCost, hPart, hLeft⟩ := h.exists_reads hLater
    refine ⟨part, all, ?_⟩
    rw [List.append_assoc, List.length_append]
    exact hPart.cons hLeft _ (by omega) (by omega)

theorem IsChoice.exists_reads : ∀ {tokens : List Token}, IsChoice tokens →
    ∃ first others, ReadsChoices (3 * tokens.length + 1) tokens (first :: others)
  | _, .one h => by
    obtain ⟨part, parts, hParts⟩ := h.exists_reads readsParts_nil
    obtain ⟨joined, hJoined⟩ := exists_conjoin part parts
    rw [List.append_nil, Nat.zero_add] at hParts
    exact ⟨joined, [], hParts.last hJoined⟩
  | _, @IsChoice.more tokens others separator h hSeparator hOthers => by
    obtain ⟨part, parts, hParts⟩ := h.exists_reads readsParts_nil
    obtain ⟨joined, hJoined⟩ := exists_conjoin part parts
    obtain ⟨first, choices, hChoices⟩ := hOthers.exists_reads
    rw [List.append_nil, Nat.zero_add] at hParts
    refine ⟨joined, first :: choices, hParts.next hJoined hSeparator hChoices _ ?_ ?_⟩
    · rw [List.length_append, List.length_cons]
      omega
    · rw [List.length_append, List.length_cons]
      omega

end

end GrammarSearch.Selector
