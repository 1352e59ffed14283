import GrammarSearch.Proofs.PrintedSelectors

/-!
# Selectors are read back

Reading the text of a selector gives the selector (`read_printAll`).  The functions that read call
each other, so the proof goes by what each of them gives on the tokens of one selector, with any
tokens after it: a group is read as an operand (`ReadsGroup`), and what stands in a group, choices
apart, as operands that make up the selector (`ReadsWhole`).  Both follow for a selector from the
first of the two for its parts.

The budget of a reader is three for every token that it takes and a few more, which is less than
what reading starts with.
-/

namespace GrammarSearch

namespace Selector

open Token (isName)

/-! ## Where operands end -/

/-- No operand starts with these tokens. -/
def EndsOperands : List Token → Prop
  | [] | .closing :: _ | .bar :: _ | .comma :: _ => True
  | _ => False

variable {rest : List Token} {budget : Nat}

theorem readNames_of_ends (h : EndsOperands rest) : readNames rest = ([], rest) := by
  fun_cases readNames rest with
  | case1 => exact h.elim
  | case2 => exact h.elim
  | case3 => rfl

theorem readOperand_of_ends (h : EndsOperands rest) (budget : Nat) :
    readOperand budget rest = (none, rest) := by
  fun_cases readOperand budget rest with
  | case1 => rfl
  | case2 => exact h.elim
  | case3 => exact h.elim
  | case4 => rfl
  | case5 budget tokens hMinus hOpening names more hSome hRead =>
    rw [readNames_of_ends h] at hRead
    exact absurd (congrArg Prod.fst hRead).symm hSome

theorem readOperands_of_ends (h : EndsOperands rest) (budget : Nat) :
    readOperands budget rest = ([], rest) := by
  cases budget with
  | zero => rw [readOperands]
  | succ budget => rw [readOperands, readOperand_of_ends h]

/-- A single operand is all that is read where operands end after it. -/
theorem readOperands_singleton {tokens : List Token} {operand : Selector} (h : EndsOperands rest)
    (hOperand : readOperand budget (tokens ++ rest) = (some operand, rest)) :
    readOperands (budget + 1) (tokens ++ rest) = ([operand], rest) := by
  rw [readOperands, hOperand]
  simp only [readOperands_of_ends h]

/-! ## Operands and groups -/

/-- The names of a path are read as an operand. -/
theorem readOperand_path {names : List String} (hSome : names ≠ [])
    (hNames : ∀ name ∈ names, IsPlainName name) (h : EndsOperands rest) (budget : Nat) :
    readOperand (budget + 1) ((path names).tokens ++ rest) = (some (path names), rest) := by
  have hRead : ∀ names : List String, (∀ name ∈ names, IsPlainName name) →
      readNames (names.map (fun name => Token.word name.toList) ++ rest) = (names, rest) := by
    intro names hNames
    induction names with
    | nil => exact readNames_of_ends h
    | cons name names ih =>
      obtain ⟨hName, hRest⟩ := List.forall_mem_cons.1 hNames
      rw [List.map_cons, List.cons_append, readNames, if_pos hName.letters, ih hRest,
        nameOf_name hName]
  rw [tokens_path hNames]
  have hAll := hRead names hNames
  cases names with
  | nil => exact absurd rfl hSome
  | cons name names =>
    rw [List.map_cons, List.cons_append] at hAll ⊢
    rw [readOperand, hAll]
    · intro more hMore
      cases hMore
    · intro more hMore
      cases hMore

/-- In parentheses the selector is read as an operand. -/
def ReadsGroup (selector : Selector) : Prop :=
  ∀ budget rest, 3 * selector.tokens.length + 3 ≤ budget →
    readOperand budget (selector.groupTokens ++ rest) = (some selector, rest)

/-- The text of the selector is read as operands that make it up. -/
def ReadsWhole (selector : Selector) : Prop :=
  ∃ parts, conjoin parts = some selector ∧
    ∀ budget rest, EndsOperands rest → 3 * selector.tokens.length + 1 ≤ budget →
      readOperands budget (selector.tokens ++ rest) = (parts, rest)

theorem length_groupTokens (selector : Selector) :
    selector.groupTokens.length = selector.tokens.length + 2 := by
  simp [groupTokens]

theorem groupTokens_append (selector : Selector) (rest : List Token) :
    selector.groupTokens ++ rest = .opening :: (selector.tokens ++ .closing :: rest) := by
  simp [groupTokens]

/-- What is read as choices between parentheses is an operand with them. -/
theorem readsGroup_of_choices {selector : Selector} {parts : List Selector}
    (hParts : choose parts = some selector)
    (hChoices : ∀ budget rest, 3 * selector.tokens.length + 2 ≤ budget →
      readChoices budget (selector.tokens ++ .closing :: rest) = (parts, .closing :: rest)) :
    ReadsGroup selector := by
  intro budget rest hBudget
  obtain ⟨budget, rfl⟩ : ∃ n, budget = n + 1 := ⟨budget - 1, by omega⟩
  rw [groupTokens_append, readOperand, hChoices budget rest (by omega)]
  simp only [hParts, skipClosing]

theorem ReadsWhole.readsGroup {selector : Selector} (h : ReadsWhole selector) :
    ReadsGroup selector := by
  obtain ⟨parts, hParts, hRead⟩ := h
  refine @readsGroup_of_choices selector [selector] rfl fun budget rest hBudget => ?_
  obtain ⟨budget, rfl⟩ : ∃ n, budget = n + 1 := ⟨budget - 1, by omega⟩
  rw [readChoices, hRead budget (.closing :: rest) trivial (by omega)]
  simp only [hParts, afterSeparator?]

/-- Groups one after another are read as operands. -/
theorem readOperands_groups {parts : List Selector} (hParts : ∀ part ∈ parts, ReadsGroup part)
    (h : EndsOperands rest) (hBudget : 3 * (parts.flatMap groupTokens).length + 1 ≤ budget) :
    readOperands budget (parts.flatMap groupTokens ++ rest) = (parts, rest) := by
  induction parts generalizing budget with
  | nil => exact readOperands_of_ends h budget
  | cons part parts ih =>
    obtain ⟨hPart, hLater⟩ := List.forall_mem_cons.1 hParts
    rw [List.flatMap_cons, List.length_append, length_groupTokens] at hBudget
    obtain ⟨budget, rfl⟩ : ∃ n, budget = n + 1 := ⟨budget - 1, by omega⟩
    rw [List.flatMap_cons, List.append_assoc, readOperands, hPart budget _ (by omega)]
    simp only [ih hLater (by omega : _ ≤ budget)]

/-- Groups with a bar between two are read as choices. -/
theorem readChoices_groups {parts : List Selector} (hSome : parts ≠ [])
    (hParts : ∀ part ∈ parts, ReadsGroup part)
    (hBudget : 3 * ([Token.bar].intercalate (parts.map groupTokens)).length + 2 ≤ budget) :
    readChoices budget ([Token.bar].intercalate (parts.map groupTokens) ++ .closing :: rest) =
      (parts, .closing :: rest) := by
  induction parts generalizing budget with
  | nil => exact absurd rfl hSome
  | cons part parts ih =>
    obtain ⟨hPart, hLater⟩ := List.forall_mem_cons.1 hParts
    cases parts with
    | nil =>
      rw [List.map_singleton, List.intercalate_singleton] at hBudget ⊢
      rw [length_groupTokens] at hBudget
      obtain ⟨budget, rfl⟩ : ∃ n, budget = n + 2 := ⟨budget - 2, by omega⟩
      have hEnds : EndsOperands (.closing :: rest) := trivial
      rw [readChoices, readOperands_singleton hEnds (hPart budget _ (by omega))]
      simp only [conjoin, afterSeparator?]
    | cons next parts =>
      rw [List.map_cons, List.map_cons, List.intercalate_cons_cons] at hBudget ⊢
      rw [← List.map_cons] at hBudget ⊢
      simp only [List.length_append, List.length_singleton, length_groupTokens] at hBudget
      obtain ⟨budget, rfl⟩ : ∃ n, budget = n + 2 := ⟨budget - 2, by omega⟩
      have hEnds (more : List Token) : EndsOperands ([.bar] ++ more) := trivial
      rw [List.append_assoc, List.append_assoc, readChoices,
        readOperands_singleton (hEnds _) (hPart budget _ (by omega))]
      simp only [conjoin, afterSeparator?, List.singleton_append,
        ih (List.cons_ne_nil next parts) hLater (by omega : _ ≤ budget + 1)]

/-- A choice keeps parts of which none stands in it twice. -/
theorem choose_of_nodup {parts : List Selector} (hTwo : 2 ≤ parts.length)
    (hDistinct : parts.Nodup) : choose parts = some (any parts) := by
  have hKept : ∀ kept : List Selector, (kept ++ parts).Nodup →
      parts.foldl (fun kept part => if kept.contains part then kept else kept ++ [part]) kept =
        kept ++ parts := by
    clear hTwo hDistinct
    induction parts with
    | nil =>
      intro kept _
      exact (List.append_nil kept).symm
    | cons part parts ih =>
      intro kept hNodup
      have hNew : part ∉ kept := fun hMem =>
        (List.nodup_append.1 hNodup).2.2 part hMem part List.mem_cons_self rfl
      rw [List.append_cons] at hNodup ⊢
      rw [List.foldl_cons, List.contains_eq_mem, if_neg (by simpa using hNew), ih _ hNodup]
  have hAll := hKept [] hDistinct
  rw [List.nil_append] at hAll
  rw [choose, hAll]
  match parts, hTwo with
  | _ :: _ :: _, _ => rfl

theorem conjoin_of_two {parts : List Selector} (hTwo : 2 ≤ parts.length) :
    conjoin parts = some (all parts) := by
  match parts, hTwo with
  | _ :: _ :: _, _ => rfl

/-! ## By the structure of the selector -/

theorem readsWhole_path {names : List String} (hSome : names ≠ [])
    (hNames : ∀ name ∈ names, IsPlainName name) : ReadsWhole (path names) := by
  refine ⟨[path names], rfl, fun budget rest hEnds hBudget => ?_⟩
  have hTokens : 0 < (path names).tokens.length := by
    rw [tokens_path hNames, List.length_map]
    exact List.length_pos_iff.2 hSome
  obtain ⟨budget, rfl⟩ : ∃ n, budget = n + 2 := ⟨budget - 2, by omega⟩
  exact readOperands_singleton hEnds (readOperand_path hSome hNames hEnds budget)

theorem readsWhole_all {parts : List Selector} (hTwo : 2 ≤ parts.length)
    (hParts : ∀ part ∈ parts, ReadsGroup part) : ReadsWhole (all parts) := by
  refine ⟨parts, conjoin_of_two hTwo, fun budget rest hEnds hBudget => ?_⟩
  rw [tokens_all] at hBudget ⊢
  exact readOperands_groups hParts hEnds hBudget

theorem readsWhole_exclude {part : Selector} (hPart : ReadsGroup part) :
    ReadsWhole (exclude part) := by
  refine ⟨[exclude part], rfl, fun budget rest hEnds hBudget => ?_⟩
  rw [tokens_exclude, List.length_cons, length_groupTokens] at hBudget
  obtain ⟨budget, rfl⟩ : ∃ n, budget = n + 2 := ⟨budget - 2, by omega⟩
  refine readOperands_singleton hEnds ?_
  rw [tokens_exclude, List.cons_append, readOperand, hPart budget rest (by omega)]
  rfl

theorem readsGroup_any {parts : List Selector} (hTwo : 2 ≤ parts.length)
    (hDistinct : parts.Nodup) (hParts : ∀ part ∈ parts, ReadsGroup part) :
    ReadsGroup (any parts) := by
  have hSome : parts ≠ [] := by
    rintro rfl
    contradiction
  refine readsGroup_of_choices (choose_of_nodup hTwo hDistinct) fun budget rest hBudget => ?_
  rw [tokens_any] at hBudget ⊢
  exact readChoices_groups hSome hParts hBudget

/-- In parentheses every selector is read back. -/
theorem Printable.readsGroup {selector : Selector} (h : Printable selector) :
    ReadsGroup selector := by
  induction h with
  | path hSome hNames => exact (readsWhole_path hSome hNames).readsGroup
  | all hTwo _ ih => exact (readsWhole_all hTwo ih).readsGroup
  | any hTwo hDistinct _ ih => exact readsGroup_any hTwo hDistinct ih
  | exclude _ ih => exact (readsWhole_exclude ih).readsGroup

/-! ## Alternatives -/

/-- The tokens of a selector as it stands in an alternative. -/
def wholeTokens (selector : Selector) : List Token :=
  Token.scan selector.printWhole.toList

theorem wholeTokens_any (parts : List Selector) :
    (any parts).wholeTokens = (any parts).groupTokens :=
  scan_group (any parts)

/-- The text of an alternative without its mark is read back. -/
theorem readConjunction_whole {selector : Selector} (h : Printable selector)
    (hEnds : EndsOperands rest) :
    readConjunction (selector.wholeTokens ++ rest) = (some selector, rest) := by
  have hOfWhole (hSame : selector.wholeTokens = selector.tokens) (hWhole : ReadsWhole selector) :
      readConjunction (selector.wholeTokens ++ rest) = (some selector, rest) := by
    obtain ⟨parts, hParts, hRead⟩ := hWhole
    have hBudget : 3 * selector.tokens.length + 1 ≤
        budgetFor (selector.tokens ++ rest).length := by
      rw [budgetFor, List.length_append]
      omega
    rw [hSame, readConjunction, hRead _ rest hEnds hBudget, ← hParts]
  cases h with
  | path hSome hNames => exact hOfWhole rfl (readsWhole_path hSome hNames)
  | all hTwo hParts =>
    exact hOfWhole rfl (readsWhole_all hTwo fun part hMem => (hParts part hMem).readsGroup)
  | exclude hPart => exact hOfWhole rfl (readsWhole_exclude hPart.readsGroup)
  | @any parts hTwo hDistinct hParts =>
    have hGroup : ReadsGroup (any parts) := (Printable.any hTwo hDistinct hParts).readsGroup
    have hRead := hGroup (3 * ((any parts).groupTokens ++ rest).length + 2) rest (by
      rw [List.length_append, length_groupTokens]
      omega)
    rw [wholeTokens_any, readConjunction, budgetFor, readOperands_singleton hEnds hRead]
    rfl

/-- The text of an alternative without its mark does not begin with a mark. -/
theorem exists_wholeTokens {selector : Selector} (h : Printable selector) :
    ∃ first more, selector.wholeTokens = first :: more ∧ first ≠ Token.left ∧
      first ≠ Token.right := by
  cases h with
  | @path names hSome hNames =>
    obtain ⟨name, names, rfl⟩ := List.exists_cons_of_ne_nil hSome
    have hName : IsPlainName name := hNames name List.mem_cons_self
    refine ⟨.word name.toList, _, tokens_path hNames, fun hMark => ?_, fun hMark => ?_⟩
    · refine hName.not_left ?_
      rw [Token.word.inj hMark]
    · refine hName.not_right ?_
      rw [Token.word.inj hMark]
  | @all parts hTwo hParts =>
    match parts, hTwo with
    | part :: parts, _ => exact ⟨.opening, _, tokens_all _, by decide, by decide⟩
  | exclude hPart => exact ⟨.minus, _, tokens_exclude _, by decide, by decide⟩
  | any hTwo hDistinct hParts => exact ⟨.opening, _, wholeTokens_any _, by decide, by decide⟩

end Selector

/-- The token of the mark of a priority, if it has one. -/
def Priority.markTokens : Priority → List Selector.Token
  | high => [.left]
  | low => [.right]
  | normal => []

/-- A mark of priority is a token of its own, whatever follows it. -/
theorem Selector.Token.scan_mark (priority : Priority) (text : List Char) :
    scan (priority.mark.toList ++ text) = priority.markTokens ++ scan text := by
  have hLetter {c : Char} (hStarts : startsWord c = true) (hMark : c = 'L' ∨ c = 'R') :
      scan (c :: ':' :: text) = word [c, ':'] :: scan text := by
    have hEnds : ':' = ':' ∧ ([c] = ['L'] ∨ [c] = ['R']) := by
      simpa using hMark
    rw [scan, scanFrom, if_pos hStarts, scanFrom_pending (List.cons_ne_nil c []), if_pos hEnds]
    rfl
  cases priority with
  | low => exact hLetter (by decide) (.inr rfl)
  | normal => rfl
  | high => exact hLetter (by decide) (.inl rfl)

namespace Alternative

open Selector

/-- The tokens of an alternative in words. -/
def tokens (alternative : Alternative) : List Token :=
  Token.scan alternative.print.toList

theorem tokens_eq (alternative : Alternative) :
    alternative.tokens = alternative.priority.markTokens ++ alternative.selector.wholeTokens := by
  rw [tokens, print, String.toList_append, wholeTokens]
  exact Token.scan_mark alternative.priority alternative.selector.printWhole.toList

theorem scan_printAll (alternatives : List Alternative) :
    Token.scan (printAll alternatives).toList =
      [Token.comma].intercalate (alternatives.map tokens) := by
  have hComma : ", ".toList.all (fun c => !Token.continuesWord c) = true := by decide
  have hScan : Token.scan ", ".toList = [.comma] := by decide
  rw [printAll, String.toList_intercalate, Token.scan_intercalate (by decide) hComma, hScan,
    List.map_map, List.map_map]
  rfl

end Alternative

namespace Selector

/-- A mark sets the priority of the alternative after it. -/
theorem readAlternatives_mark (priority : Priority) (tokens : List Token) (budget : Nat) :
    readAlternatives (budget + priority.markTokens.length) .normal (priority.markTokens ++ tokens) =
      readAlternatives budget priority tokens := by
  cases priority with
  | low => rfl
  | normal => rfl
  | high => rfl

/-- An alternative is read back, and then the ones after its comma. -/
theorem readAlternatives_whole {selector : Selector} (h : Printable selector)
    (priority : Priority) (budget : Nat) :
    readAlternatives (budget + 1) priority selector.wholeTokens = [⟨priority, selector⟩] ∧
      ∀ later, readAlternatives (budget + 1) priority (selector.wholeTokens ++ .comma :: later) =
        ⟨priority, selector⟩ :: readAlternatives budget .normal later := by
  obtain ⟨first, more, hTokens, hLeft, hRight⟩ := exists_wholeTokens h
  constructor
  · have hRead : readConjunction (selector.wholeTokens ++ []) = (some selector, []) :=
      readConjunction_whole h trivial
    rw [List.append_nil] at hRead
    rw [hTokens] at hRead ⊢
    rw [readAlternatives, if_neg hLeft, if_neg hRight, hRead]
  · intro later
    have hRead : readConjunction (selector.wholeTokens ++ .comma :: later) =
        (some selector, .comma :: later) := readConjunction_whole h trivial
    rw [hTokens, List.cons_append] at hRead ⊢
    rw [readAlternatives, if_neg hLeft, if_neg hRight, hRead]

theorem readAlternatives_printed {alternatives : List Alternative}
    (h : ∀ alternative ∈ alternatives, alternative.selector.Printable) {budget : Nat}
    (hBudget : ([Token.comma].intercalate (alternatives.map Alternative.tokens)).length < budget) :
    readAlternatives budget .normal
      ([Token.comma].intercalate (alternatives.map Alternative.tokens)) = alternatives := by
  induction alternatives generalizing budget with
  | nil =>
    cases budget with
    | zero => rfl
    | succ budget => rfl
  | cons alternative alternatives ih =>
    obtain ⟨hFirst, hLater⟩ := List.forall_mem_cons.1 h
    cases alternatives with
    | nil =>
      rw [List.map_singleton, List.intercalate_singleton, Alternative.tokens_eq] at hBudget ⊢
      rw [List.length_append] at hBudget
      obtain ⟨budget, rfl⟩ : ∃ n, budget = n + 1 + alternative.priority.markTokens.length :=
        ⟨budget - 1 - alternative.priority.markTokens.length, by omega⟩
      rw [readAlternatives_mark]
      exact (readAlternatives_whole hFirst alternative.priority budget).1
    | cons next alternatives =>
      rw [List.map_cons, List.map_cons, List.intercalate_cons_cons, ← List.map_cons,
        Alternative.tokens_eq] at hBudget ⊢
      simp only [List.length_append, List.length_singleton] at hBudget
      obtain ⟨budget, rfl⟩ : ∃ n, budget = n + 1 + alternative.priority.markTokens.length :=
        ⟨budget - 1 - alternative.priority.markTokens.length, by omega⟩
      rw [List.append_assoc, List.append_assoc, readAlternatives_mark, List.singleton_append,
        (readAlternatives_whole hFirst alternative.priority budget).2,
        ih hLater (by omega : _ < budget)]

/-- The text of alternatives is read back as these alternatives. -/
theorem read_printAll (alternatives : List Alternative)
    (h : ∀ alternative ∈ alternatives, alternative.selector.Printable) :
    read (Alternative.printAll alternatives) = alternatives := by
  rw [read, Alternative.scan_printAll]
  exact readAlternatives_printed h (Nat.lt_succ_self _)

/-- Alternatives whose names look like marks and whose parts repeat each other. -/
def nestedAlternatives : List Alternative :=
  [⟨.high, .all [.path ["text.html", "L.x:y-*"],
      .exclude (.any [.path ["comment"], .exclude (.path [":"])])]⟩,
    ⟨.low, .any [.all [.path ["a"], .path ["a"]], .path ["a"]]⟩,
    ⟨.normal, .exclude (.exclude (.path ["R", "_"]))⟩]

/-- Every alternative keeps its own priority, and every group its place. -/
theorem read_nestedAlternatives :
    Alternative.printAll nestedAlternatives =
      "L:(text.html L.x:y-*) (- ((comment) | (- (:)))), R:(((a) (a)) | (a)), - (- (R _))" ∧
    (∀ alternative ∈ nestedAlternatives, alternative.selector.Printable) ∧
    read "L:(text.html L.x:y-*) (- ((comment) | (- (:)))), R:(((a) (a)) | (a)), - (- (R _))" =
      nestedAlternatives := by
  have hText : Alternative.printAll nestedAlternatives =
      "L:(text.html L.x:y-*) (- ((comment) | (- (:)))), R:(((a) (a)) | (a)), - (- (R _))" := by
    decide
  have hPath (names : List String) (hSome : names ≠ [])
      (hNames : ∀ name ∈ names, IsPlainName name) : (path names).Printable := .path hSome hNames
  have hBoth {first second : Selector} (hFirst : first.Printable) (hSecond : second.Printable) :
      ∀ part ∈ [first, second], part.Printable :=
    List.forall_mem_cons.2 ⟨hFirst, List.forall_mem_singleton.2 hSecond⟩
  have hLetter : (path ["a"]).Printable := hPath _ (by decide) (by decide)
  have hChoice : (any [path ["comment"], exclude (path [":"])]).Printable :=
    .any (by decide) (by decide) (hBoth (hPath _ (by decide) (by decide))
      (.exclude (hPath _ (by decide) (by decide))))
  have hFirst : (all [path ["text.html", "L.x:y-*"],
      exclude (any [path ["comment"], exclude (path [":"])])]).Printable :=
    .all (by decide) (hBoth (hPath _ (by decide) (by decide)) (.exclude hChoice))
  have hSecond : (any [all [path ["a"], path ["a"]], path ["a"]]).Printable :=
    .any (by decide) (by decide) (hBoth (.all (by decide) (hBoth hLetter hLetter)) hLetter)
  have hThird : (exclude (exclude (path ["R", "_"]))).Printable :=
    .exclude (.exclude (hPath _ (by decide) (by decide)))
  have hAll : ∀ alternative ∈ nestedAlternatives, alternative.selector.Printable := by
    intro alternative hMem
    rcases List.mem_cons.1 hMem with rfl | hMem
    · exact hFirst
    rcases List.mem_cons.1 hMem with rfl | hMem
    · exact hSecond
    · rw [List.mem_singleton.1 hMem]
      exact hThird
  refine ⟨hText, hAll, ?_⟩
  rw [← hText]
  exact read_printAll nestedAlternatives hAll

end Selector

end GrammarSearch
