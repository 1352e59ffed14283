import GrammarSearch.Proofs.ConjunctionTexts
import GrammarSearch.Proofs.TemplateOffsets

/-!
# Selectors read with a cursor

A host reads a selector from an array of tokens, each of them a slice of the text, with a position
that every call moves and that stays moved where a call finds nothing.  Every look at a token and
every cut is at an index that has to be there.  `OperandAt`, `OperandsAt`, `ChoicesAt` and
`AlternativesAt` say how such a reading goes: each look at a token is a premise, so a look past the
end leaves no rule to go on with, and neither does a call that comes back to itself.

From every position there is just one reading, the one that the readers of lists give
(`EndsWell`).  It exists because the tokens left get fewer: a selector that is found moves the
position, and a call that finds none does not move it back, so three steps for every token left are
enough.  That a reading has found a selector also bounds the position, and says that the selector is
in normal form (`IsNormal`).

## Main results

* `cutsFrom_scan`: the tokens of a text are slices of it.
* `nameInPlace?_eq`: no name is cut inside a character.
* `follows_readOperand`, `follows_readOperands`, `follows_readChoices`: readings exist and move on.
* `any_text_is_read`: any text is read, call by call.
-/

namespace GrammarSearch.Selector

/-! ## Tokens as slices -/

/-- The text of a token. -/
def Token.chars : Token → List Char
  | word text => text
  | comma => [',']
  | bar => ['|']
  | minus => ['-']
  | opening => ['(']
  | closing => [')']

/-- The tokens are parts of a text, one after another from an offset on, none of them empty. -/
inductive CutsFrom (text : List Char) : Nat → List Token → Prop
  | nil (start : Nat) : CutsFrom text start []
  | cons {start first stop : Nat} {token : Token} {tokens : List Token} (hStart : start ≤ first)
      (hSome : first < stop) (hCut : Text.slice? text first stop = some token.chars)
      (hRest : CutsFrom text stop tokens) : CutsFrom text start (token :: tokens)

theorem CutsFrom.mono {text : List Char} {start other : Nat} {tokens : List Token}
    (h : CutsFrom text start tokens) (hOther : other ≤ start) : CutsFrom text other tokens := by
  cases h with
  | nil => exact .nil other
  | cons hStart hSome hCut hRest => exact .cons (Nat.le_trans hOther hStart) hSome hCut hRest

variable {whole before part after pending : List Char} {c : Char} {tokens : List Token}

theorem CutsFrom.cons_append {token : Token} (hWhole : before ++ part ++ after = whole)
    (hSome : part ≠ []) (hPart : token.chars = part)
    (h : CutsFrom whole (Text.byteLength (before ++ part)) tokens) :
    CutsFrom whole (Text.byteLength before) (token :: tokens) := by
  subst hWhole hPart
  refine .cons (Nat.le_refl _) ?_ (Text.slice?_append before token.chars after) h
  obtain ⟨c, rest, hChars⟩ := List.exists_cons_of_ne_nil hSome
  have hSize := c.utf8Size_pos
  rw [Text.byteLength_append, hChars, Text.byteLength_cons]
  omega

/-- A word that is pending is a part of the text. -/
theorem CutsFrom.ofPending (hWhole : before ++ pending.reverse ++ after = whole)
    (h : CutsFrom whole (Text.byteLength (before ++ pending.reverse)) tokens) :
    CutsFrom whole (Text.byteLength before) (Token.ofPending pending ++ tokens) := by
  cases pending with
  | nil =>
    rw [List.reverse_nil, List.append_nil] at h
    exact h
  | cons c pending => exact .cons_append hWhole (by simp) rfl h

/-- A mark is the character that it is, and any other character is passed. -/
theorem CutsFrom.ofMark (hWhole : before ++ [c] ++ after = whole)
    (h : CutsFrom whole (Text.byteLength (before ++ [c])) tokens) :
    CutsFrom whole (Text.byteLength before) ((Token.ofMark? c).toList ++ tokens) := by
  have hMark : ∀ token, Token.ofMark? c = some token → token.chars = [c] := by
    intro token hFound
    unfold Token.ofMark? at hFound
    split at hFound <;> cases hFound <;> rfl
  cases hFound : Token.ofMark? c with
  | none =>
    refine h.mono ?_
    rw [Text.byteLength_append]
    exact Nat.le_add_right _ _
  | some token => exact .cons_append hWhole (by simp) (hMark token hFound) h

theorem cutsFrom_scanFrom {text : List Char} (hWhole : before ++ pending.reverse ++ text = whole) :
    CutsFrom whole (Text.byteLength before) (Token.scanFrom pending text) := by
  fun_induction Token.scanFrom pending text generalizing before with
  | case1 pending =>
    have hPending := (CutsFrom.nil (Text.byteLength (before ++ pending.reverse))).ofPending hWhole
    rwa [List.append_nil] at hPending
  | case2 c rest hStarts ih => exact ih (by simpa using hWhole)
  | case3 c rest hStarts ih =>
    have hRest : before ++ [c] ++ rest = whole := by simpa using hWhole
    exact (ih (by simpa using hRest)).ofMark hRest
  | case4 pending c rest hPending hMark ih =>
    have hRest : before ++ (c :: pending).reverse ++ rest = whole := by simpa using hWhole
    exact (ih (by simpa using hRest)).cons_append hRest (by simp) rfl
  | case5 pending c rest hPending hMark hContinues ih => exact ih (by simpa using hWhole)
  | case6 pending c rest hPending hMark hContinues ih =>
    have hRest : before ++ pending.reverse ++ [c] ++ rest = whole := by simpa using hWhole
    rw [List.append_assoc]
    exact ((ih (by simpa using hRest)).ofMark hRest).ofPending hWhole

/-- The tokens of a text are slices of it, in their order. -/
theorem cutsFrom_scan (text : List Char) : CutsFrom text 0 (Token.scan text) := by
  have hWhole : [] ++ ([] : List Char).reverse ++ text = text := rfl
  exact cutsFrom_scanFrom hWhole

/-! ## Names in place -/

/-- The byte offset of the first `.*`. -/
def cutOffset? : List Char → Option Nat
  | [] => none
  | '.' :: '*' :: _ => some 0
  | c :: rest => (cutOffset? rest).map (c.utf8Size + ·)

/-- A word as a name, cut at a byte offset. -/
def nameInPlace? (text : List Char) : Option String :=
  match cutOffset? text with
  | some offset =>
    (Text.slice? text 0 offset).map fun head =>
      String.ofList (head.reverse.dropWhile (· == '.')).reverse
  | none => some (String.ofList text)

theorem cutOffset?_cases (text : List Char) :
    (cutOffset? text = none ∧ nameHead text = text) ∨
      ∃ rest, rest ≠ [] ∧ text = nameHead text ++ rest ∧
        cutOffset? text = some (Text.byteLength (nameHead text)) := by
  fun_induction nameHead text with
  | case1 => exact .inl ⟨rfl, rfl⟩
  | case2 rest => exact .inr ⟨'.' :: '*' :: rest, by simp, rfl, rfl⟩
  | case3 c rest hOther ih =>
    have hStep : cutOffset? (c :: rest) = (cutOffset? rest).map (c.utf8Size + ·) := by
      rw [cutOffset?]
      exact hOther
    rcases ih with ⟨hNone, hSame⟩ | ⟨after, hSome, hText, hFound⟩
    · exact .inl ⟨by rw [hStep, hNone, Option.map_none], by rw [hSame]⟩
    · refine .inr ⟨after, hSome, by rw [List.cons_append, ← hText], ?_⟩
      rw [hStep, hFound, Option.map_some, Text.byteLength_cons]

/-- The cut is between two characters. -/
theorem nameInPlace?_eq (text : List Char) : nameInPlace? text = some (nameOf text) := by
  rw [nameInPlace?, nameOf]
  rcases cutOffset?_cases text with ⟨hNone, hSame⟩ | ⟨rest, hSome, hText, hFound⟩
  · rw [hNone, if_pos hSame]
  · have hShorter : nameHead text ≠ text := by
      intro hSame
      rw [hSame] at hText
      exact hSome (List.self_eq_append_right.1 hText)
    have hCut := Text.slice?_append [] (nameHead text) rest
    rw [List.nil_append, ← hText] at hCut
    rw [hFound, if_neg hShorter]
    exact congrArg (Option.map _) hCut

/-! ## Readings -/

/-- The names from a position on, and where they end. -/
inductive NamesAt (tokens : List Token) : Nat → List String → Nat → Prop
  | stop {position : Nat}
      (hStop : ∀ text, tokens[position]? = some (.word text) → Token.isName text = false) :
      NamesAt tokens position [] position
  | more {position stop : Nat} {text : List Char} {name : String} {names : List String}
      (hToken : tokens[position]? = some (.word text)) (hName : Token.isName text = true)
      (hCut : nameInPlace? text = some name) (hRest : NamesAt tokens (position + 1) names stop) :
      NamesAt tokens position (name :: names) stop

/-- What a path is if it has names. -/
def pathOf? : List String → Option Selector
  | [] => none
  | names => some (path names)

/-- Where the tokens go on behind a closing parenthesis, if one is at the position. -/
def skipClosingAt (tokens : List Token) (position : Nat) : Nat :=
  if tokens[position]? = some .closing then position + 1 else position

/-- Whether a separator of choices is at the position. -/
def SeparatorAt (tokens : List Token) (position : Nat) : Prop :=
  tokens[position]? = some .bar ∨ tokens[position]? = some .comma

mutual

/-- How an operand is read from a position on: what is found, and where the position is then. -/
inductive OperandAt (tokens : List Token) : Nat → Option Selector → Nat → Prop
  | atEnd {position : Nat} (hEnd : tokens.length ≤ position) :
      OperandAt tokens position none position
  | exclude {position stop : Nat} {part : Option Selector}
      (hToken : tokens[position]? = some .minus)
      (hPart : OperandAt tokens (position + 1) part stop) :
      OperandAt tokens position (part.map .exclude) stop
  | group {position stop : Nat} {parts : List Selector}
      (hToken : tokens[position]? = some .opening)
      (hParts : ChoicesAt tokens (position + 1) parts stop) :
      OperandAt tokens position (choose parts) (skipClosingAt tokens stop)
  | names {position stop : Nat} {token : Token} {names : List String}
      (hToken : tokens[position]? = some token) (hMinus : token ≠ .minus)
      (hOpening : token ≠ .opening) (hNames : NamesAt tokens position names stop) :
      OperandAt tokens position (pathOf? names) stop

/-- How the operands of a conjunction are read, up to a call that finds none. -/
inductive OperandsAt (tokens : List Token) : Nat → List Selector → Nat → Prop
  | stop {position stop : Nat} (hPart : OperandAt tokens position none stop) :
      OperandsAt tokens position [] stop
  | more {position next stop : Nat} {part : Selector} {parts : List Selector}
      (hPart : OperandAt tokens position (some part) next)
      (hParts : OperandsAt tokens next parts stop) :
      OperandsAt tokens position (part :: parts) stop

/-- How the choices of a group are read, up to an empty one or one that no separator follows. -/
inductive ChoicesAt (tokens : List Token) : Nat → List Selector → Nat → Prop
  | none {position stop : Nat} {parts : List Selector}
      (hParts : OperandsAt tokens position parts stop) (hNone : conjoin parts = none) :
      ChoicesAt tokens position [] stop
  | last {position stop : Nat} {parts : List Selector} {part : Selector}
      (hParts : OperandsAt tokens position parts stop) (hPart : conjoin parts = some part)
      (hLast : ¬ SeparatorAt tokens stop) : ChoicesAt tokens position [part] stop
  | next {position next stop : Nat} {parts others : List Selector} {part : Selector}
      (hParts : OperandsAt tokens position parts next) (hPart : conjoin parts = some part)
      (hNext : SeparatorAt tokens next) (hOthers : ChoicesAt tokens (next + 1) others stop) :
      ChoicesAt tokens position (part :: others) stop

end

/-! ## Normal form -/

/-- A selector without empty paths and without conjunctions and choices that are none: of two parts
at least, all different in a choice. -/
inductive IsNormal : Selector → Prop
  | path {names : List String} (hSome : names ≠ []) : IsNormal (path names)
  | all {parts : List Selector} (hTwo : 2 ≤ parts.length)
      (hParts : ∀ part ∈ parts, IsNormal part) : IsNormal (all parts)
  | any {parts : List Selector} (hTwo : 2 ≤ parts.length) (hDistinct : parts.Nodup)
      (hParts : ∀ part ∈ parts, IsNormal part) : IsNormal (any parts)
  | exclude {part : Selector} (hPart : IsNormal part) : IsNormal (exclude part)

theorem isNormal_of_conjoin {parts : List Selector} {joined : Selector}
    (hParts : ∀ part ∈ parts, IsNormal part) (hJoined : conjoin parts = some joined) :
    joined.IsNormal := by
  rcases parts with - | ⟨first, - | ⟨second, parts⟩⟩
  · cases hJoined
  · cases hJoined
    exact hParts joined List.mem_cons_self
  · cases hJoined
    exact .all (by simp) hParts

theorem isNormal_of_choose {parts : List Selector} {chosen : Selector}
    (hParts : ∀ part ∈ parts, IsNormal part) (hChosen : choose parts = some chosen) :
    chosen.IsNormal := by
  -- What is kept stays different and normal while the parts are gone through.
  have hKept : ∀ kept : List Selector, kept.Nodup → (∀ part ∈ kept, IsNormal part) →
      let all := parts.foldl (fun kept part => if kept.contains part then kept else kept ++ [part])
        kept
      all.Nodup ∧ ∀ part ∈ all, IsNormal part := by
    clear hChosen
    induction parts with
    | nil => exact fun kept hDistinct hNormal => ⟨hDistinct, hNormal⟩
    | cons part parts ih =>
      obtain ⟨hPart, hLater⟩ := List.forall_mem_cons.1 hParts
      intro kept hDistinct hNormal
      rw [List.foldl_cons]
      split
      · exact ih hLater kept hDistinct hNormal
      · next hNew =>
        have hNotMem : part ∉ kept := by simpa using hNew
        refine ih hLater _ ?_ ?_
        · rw [List.nodup_append]
          refine ⟨hDistinct, List.nodup_singleton part, fun a hMem b hSame hEq => hNotMem ?_⟩
          rwa [← List.mem_singleton.1 hSame, ← hEq]
        · intro other hMem
          rcases List.mem_append.1 hMem with hOld | hLast
          · exact hNormal other hOld
          · rwa [List.mem_singleton.1 hLast]
  obtain ⟨hDistinct, hNormal⟩ := hKept [] List.nodup_nil (by simp)
  rw [choose] at hChosen
  generalize parts.foldl _ [] = all at hChosen hDistinct hNormal
  rcases all with - | ⟨first, - | ⟨second, parts⟩⟩
  · cases hChosen
  · cases hChosen
    exact hNormal chosen List.mem_cons_self
  · cases hChosen
    exact .any (by simp) hDistinct hNormal

/-! ## Every reading exists -/

/-- How a call moves the position: forward if it finds something, never back, and not past the end.
What it finds is in normal form. -/
structure Moves (tokens : List Token) (position stop : Nat) (found : List Selector) : Prop where
  not_back : position ≤ stop
  not_past : stop ≤ max position tokens.length
  forward : found ≠ [] → position < stop
  normal : ∀ part ∈ found, part.IsNormal

/-- A call gives what the reader of the tokens left gives, and leaves the same tokens. -/
def Follows {α : Type} (tokens : List Token) (position : Nat) (call : α → Nat → Prop)
    (found : α → List Selector) (read : α × List Token) : Prop :=
  ∃ stop, call read.1 stop ∧ read.2 = tokens.drop stop ∧
    Moves tokens position stop (found read.1)

theorem getElem?_of_drop {token : Token} {tokens rest : List Token} {position : Nat}
    (h : tokens.drop position = token :: rest) :
    tokens[position]? = some token ∧ tokens.drop (position + 1) = rest ∧
      position < tokens.length := by
  refine ⟨?_, ?_, ?_⟩
  · rw [← List.head?_drop, h, List.head?_cons]
  · rw [← List.tail_drop, h, List.tail_cons]
  · have hLength := congrArg List.length h
    rw [List.length_drop, List.length_cons] at hLength
    omega

theorem exists_namesAt {tokens rest : List Token} {position : Nat}
    (hRest : tokens.drop position = rest) :
    ∃ stop, NamesAt tokens position (readNames rest).1 stop ∧
      (readNames rest).2 = tokens.drop stop ∧ position ≤ stop ∧ stop ≤ max position tokens.length ∧
      ((readNames rest).1 ≠ [] → position < stop) := by
  fun_induction readNames rest generalizing position with
  | case1 text rest hName names left hRead ih =>
    obtain ⟨hToken, hNext, hInside⟩ := getElem?_of_drop hRest
    obtain ⟨stop, hNames, hLeft, hBack, hPast, -⟩ := ih hNext
    rw [hRead] at hNames hLeft
    exact ⟨stop, .more hToken hName (nameInPlace?_eq text) hNames, hLeft, by omega, by omega,
      fun _ => hBack⟩
  | case2 text rest hName =>
    refine ⟨position, .stop fun other hOther => ?_, hRest.symm, Nat.le_refl _, by omega, by simp⟩
    obtain ⟨hToken, -, -⟩ := getElem?_of_drop hRest
    rw [hToken] at hOther
    cases hOther
    simpa using hName
  | case3 rest hOther =>
    refine ⟨position, .stop fun text hWord => ?_, hRest.symm, Nat.le_refl _, by omega, by simp⟩
    rw [← List.head?_drop, hRest] at hWord
    obtain ⟨more, hMore⟩ := List.head?_eq_some_iff.1 hWord
    exact absurd hMore (hOther text more)

/-- A token that opens nothing and excludes nothing is read as names, if at all. -/
theorem readOperand_of_names {token : Token} (hMinus : token ≠ .minus) (hOpening : token ≠ .opening)
    (budget : Nat) (rest : List Token) :
    readOperand (budget + 1) (token :: rest) =
      (pathOf? (readNames (token :: rest)).1, (readNames (token :: rest)).2) := by
  rcases readNames_cases (token :: rest) with hNone | ⟨text, more, first, names, left, hWord, hRead⟩
  · rw [readOperand, hNone]
    · rfl
    · exact fun _ hSame => hMinus (List.cons.inj hSame).1
    · exact fun _ hSame => hOpening (List.cons.inj hSame).1
  · rw [hWord] at hRead ⊢
    rw [readOperand_word hRead, hRead]
    rfl

theorem skipClosing_drop (tokens : List Token) (position : Nat) :
    skipClosing (tokens.drop position) = tokens.drop (skipClosingAt tokens position) ∧
      position ≤ skipClosingAt tokens position ∧
      skipClosingAt tokens position ≤ max position tokens.length := by
  rw [skipClosingAt]
  cases hTokens : tokens.drop position with
  | nil =>
    have hNone : tokens[position]? ≠ some .closing := by
      rw [← List.head?_drop, hTokens]
      simp
    rw [if_neg hNone, hTokens]
    exact ⟨rfl, Nat.le_refl _, Nat.le_max_left _ _⟩
  | cons token rest =>
    obtain ⟨hToken, hRest, hInside⟩ := getElem?_of_drop hTokens
    rw [hToken]
    split
    · next hClosing =>
      cases hClosing
      exact ⟨hRest.symm, by omega, by omega⟩
    · next hOther =>
      refine ⟨?_, Nat.le_refl _, Nat.le_max_left _ _⟩
      rw [hTokens, skipClosing]
      rintro _ hSame
      cases hSame
      exact hOther rfl

/-- The tokens behind a separator, by its position. -/
theorem afterSeparator?_drop (tokens : List Token) (position : Nat) :
    (¬ SeparatorAt tokens position ∧ afterSeparator? (tokens.drop position) = none) ∨
      SeparatorAt tokens position ∧ position < tokens.length ∧
        afterSeparator? (tokens.drop position) = some (tokens.drop (position + 1)) := by
  rw [SeparatorAt, ← List.head?_drop]
  cases hTokens : tokens.drop position with
  | nil => exact .inl ⟨by simp, rfl⟩
  | cons token rest =>
    obtain ⟨-, hRest, hInside⟩ := getElem?_of_drop hTokens
    rw [hRest]
    cases token with
    | bar => exact .inr ⟨.inl rfl, hInside, rfl⟩
    | comma => exact .inr ⟨.inr rfl, hInside, rfl⟩
    | word text => exact .inl ⟨by simp, rfl⟩
    | minus => exact .inl ⟨by simp, rfl⟩
    | opening => exact .inl ⟨by simp, rfl⟩
    | closing => exact .inl ⟨by simp, rfl⟩

theorem isNormal_of_pathOf? {names : List String} {selector : Selector}
    (h : pathOf? names = some selector) : names ≠ [] ∧ selector.IsNormal := by
  cases names with
  | nil => cases h
  | cons name names =>
    cases h
    exact ⟨List.cons_ne_nil _ _, .path (List.cons_ne_nil _ _)⟩

mutual

theorem follows_readOperand (tokens : List Token) : ∀ budget position : Nat,
    3 * (tokens.length - position) + 1 ≤ budget →
    Follows tokens position (OperandAt tokens position) Option.toList
      (readOperand budget (tokens.drop position))
  | 0, _, hBudget => by omega
  | budget + 1, position, hBudget => by
    cases hTokens : tokens.drop position with
    | nil =>
      have hEnd : tokens.length ≤ position := List.drop_eq_nil_iff.1 hTokens
      have hEnds : EndsOperands [] := trivial
      rw [readOperand_of_ends hEnds]
      exact ⟨position, .atEnd hEnd, hTokens.symm, Nat.le_refl _, Nat.le_max_left _ _, by simp,
        by simp⟩
    | cons token rest =>
      obtain ⟨hToken, hRest, hInside⟩ := getElem?_of_drop hTokens
      by_cases hMinus : token = .minus
      · subst hMinus
        obtain ⟨stop, hPart, hLeft, hMoves⟩ :=
          follows_readOperand tokens budget (position + 1) (by omega)
        rw [hRest] at hPart hLeft hMoves
        rw [readOperand]
        refine ⟨stop, .exclude hToken hPart, hLeft, ?_, ?_, ?_, ?_⟩
        · exact Nat.le_trans (Nat.le_succ position) hMoves.not_back
        · have := hMoves.not_past
          omega
        · exact fun _ => hMoves.not_back
        · intro selector hMem
          obtain ⟨part, hFound, rfl⟩ := Option.map_eq_some_iff.1 (Option.mem_toList.1 hMem)
          exact .exclude (hMoves.normal part (Option.mem_toList.2 hFound))
      by_cases hOpening : token = .opening
      · subst hOpening
        obtain ⟨stop, hParts, hLeft, hMoves⟩ :=
          follows_readChoices tokens budget (position + 1) (by omega)
        rw [hRest] at hParts hLeft hMoves
        obtain ⟨hSkip, hBack, hPast⟩ := skipClosing_drop tokens stop
        have hFirst := hMoves.not_back
        have hLast := hMoves.not_past
        rw [readOperand]
        refine ⟨skipClosingAt tokens stop, .group hToken hParts, ?_, by omega, by omega,
          fun _ => by omega, ?_⟩
        · rw [← hSkip, ← hLeft]
        · exact fun selector hMem =>
            isNormal_of_choose hMoves.normal (Option.mem_toList.1 hMem)
      · obtain ⟨stop, hNames, hLeft, hBack, hPast, hForward⟩ := exists_namesAt hTokens
        rw [readOperand_of_names hMinus hOpening]
        refine ⟨stop, .names hToken hMinus hOpening hNames, hLeft, hBack, hPast, ?_, ?_⟩
        · intro hFound
          obtain ⟨selector, hMem⟩ := List.exists_mem_of_ne_nil _ hFound
          exact hForward (isNormal_of_pathOf? (Option.mem_toList.1 hMem)).1
        · exact fun selector hMem => (isNormal_of_pathOf? (Option.mem_toList.1 hMem)).2

theorem follows_readOperands (tokens : List Token) : ∀ budget position : Nat,
    3 * (tokens.length - position) + 2 ≤ budget →
    Follows tokens position (OperandsAt tokens position) id
      (readOperands budget (tokens.drop position))
  | 0, _, hBudget => by omega
  | budget + 1, position, hBudget => by
    obtain ⟨next, hPart, hLeft, hMoves⟩ :=
      follows_readOperand tokens budget position (by omega)
    have hBack := hMoves.not_back
    have hPast := hMoves.not_past
    rw [readOperands]
    split
    · next part rest hRead =>
      rw [hRead] at hPart hLeft hMoves
      have hForward := hMoves.forward (by simp)
      obtain ⟨stop, hParts, hEnd, hLater⟩ :=
        follows_readOperands tokens budget next (by omega)
      have hNextBack := hLater.not_back
      have hNextPast := hLater.not_past
      dsimp only at hLeft
      rw [← hLeft] at hParts hEnd hLater
      refine ⟨stop, .more hPart hParts, hEnd, by omega, by omega, fun _ => by omega, ?_⟩
      exact List.forall_mem_cons.2 ⟨hMoves.normal part (by simp), hLater.normal⟩
    · next rest hRead =>
      rw [hRead] at hPart hLeft
      exact ⟨next, .stop hPart, hLeft, hBack, hPast, by simp, by simp⟩

theorem follows_readChoices (tokens : List Token) : ∀ budget position : Nat,
    3 * (tokens.length - position) + 3 ≤ budget →
    Follows tokens position (ChoicesAt tokens position) id
      (readChoices budget (tokens.drop position))
  | 0, _, hBudget => by omega
  | budget + 1, position, hBudget => by
    obtain ⟨next, hParts, hLeft, hMoves⟩ :=
      follows_readOperands tokens budget position (by omega)
    have hBack := hMoves.not_back
    have hPast := hMoves.not_past
    rw [readChoices]
    split
    next parts rest hRead =>
    rw [hRead] at hParts hLeft hMoves
    dsimp only at hLeft
    split
    · next hNone =>
      exact ⟨next, .none hParts hNone, hLeft, hBack, hPast, by simp, by simp⟩
    · next part hPart =>
      have hForward : position < next := hMoves.forward (by rintro rfl; cases hPart)
      have hNormal : part.IsNormal := isNormal_of_conjoin hMoves.normal hPart
      rcases afterSeparator?_drop tokens next with ⟨hLast, hAfter⟩ | ⟨hNext, hInside, hAfter⟩
      · rw [hLeft, hAfter]
        exact ⟨next, .last hParts hPart hLast, rfl, hBack, hPast, fun _ => hForward, by simpa⟩
      · obtain ⟨stop, hOthers, hEnd, hLater⟩ :=
          follows_readChoices tokens budget (next + 1) (by omega)
        have hNextBack := hLater.not_back
        have hNextPast := hLater.not_past
        rw [hLeft, hAfter]
        refine ⟨stop, .next hParts hPart hNext hOthers, hEnd, by omega, by omega,
          fun _ => by omega, ?_⟩
        exact List.forall_mem_cons.2 ⟨hNormal, hLater.normal⟩

end

/-! ## Every reading is the only one -/

variable {position stop : Nat}

theorem NamesAt.unique {names : List String} (h : NamesAt tokens position names stop) :
    ∀ {others : List String} {other : Nat}, NamesAt tokens position others other →
      names = others ∧ stop = other := by
  induction h with
  | stop hStop =>
    intro others other hOther
    cases hOther with
    | stop => exact ⟨rfl, rfl⟩
    | more hToken hName =>
      rw [hStop _ hToken] at hName
      cases hName
  | more hToken hName hCut hRest ih =>
    intro others other hOther
    cases hOther with
    | stop hStop =>
      rw [hStop _ hToken] at hName
      cases hName
    | more hSame _ hAgain hLater =>
      rw [hToken] at hSame
      cases hSame
      rw [hCut] at hAgain
      cases hAgain
      obtain ⟨rfl, rfl⟩ := ih hLater
      exact ⟨rfl, rfl⟩

mutual

theorem OperandAt.unique : ∀ {position stop : Nat} {result : Option Selector},
    OperandAt tokens position result stop →
    ∀ {answer : Option Selector} {other : Nat}, OperandAt tokens position answer other →
      result = answer ∧ stop = other
  | position, _, _, .atEnd hEnd, answer, other, h => by
    have hNone : tokens[position]? = none := List.getElem?_eq_none hEnd
    cases h with
    | atEnd => exact ⟨rfl, rfl⟩
    | exclude hToken => simp [hNone] at hToken
    | group hToken => simp [hNone] at hToken
    | names hToken => simp [hNone] at hToken
  | position, _, _, .exclude hMinus hPart, answer, other, h => by
    cases h with
    | atEnd hEnd => simp [List.getElem?_eq_none hEnd] at hMinus
    | exclude hToken hOther =>
      obtain ⟨rfl, rfl⟩ := hPart.unique hOther
      exact ⟨rfl, rfl⟩
    | group hToken => simp [hMinus] at hToken
    | names hToken hNot =>
      rw [hMinus] at hToken
      exact absurd (Option.some.inj hToken).symm hNot
  | position, _, _, .group hOpening hParts, answer, other, h => by
    cases h with
    | atEnd hEnd => simp [List.getElem?_eq_none hEnd] at hOpening
    | exclude hToken => simp [hOpening] at hToken
    | group hToken hOthers =>
      obtain ⟨rfl, rfl⟩ := hParts.unique hOthers
      exact ⟨rfl, rfl⟩
    | names hToken _ hNot =>
      rw [hOpening] at hToken
      exact absurd (Option.some.inj hToken).symm hNot
  | position, _, _, .names hFirst hMinus hOpening hNames, answer, other, h => by
    cases h with
    | atEnd hEnd => simp [List.getElem?_eq_none hEnd] at hFirst
    | exclude hToken =>
      rw [hFirst] at hToken
      exact absurd (Option.some.inj hToken) hMinus
    | group hToken =>
      rw [hFirst] at hToken
      exact absurd (Option.some.inj hToken) hOpening
    | names _ _ _ hOthers =>
      obtain ⟨rfl, rfl⟩ := hNames.unique hOthers
      exact ⟨rfl, rfl⟩

theorem OperandsAt.unique : ∀ {position stop : Nat} {parts : List Selector},
    OperandsAt tokens position parts stop →
    ∀ {others : List Selector} {other : Nat}, OperandsAt tokens position others other →
      parts = others ∧ stop = other
  | _, _, _, .stop hPart, others, other, h => by
    cases h with
    | stop hOther => exact ⟨rfl, (hPart.unique hOther).2⟩
    | more hOther => exact absurd (hPart.unique hOther).1 (by simp)
  | _, _, _, .more hPart hParts, others, other, h => by
    cases h with
    | stop hOther => exact absurd (hPart.unique hOther).1 (by simp)
    | more hOther hOthers =>
      obtain ⟨hSame, rfl⟩ := hPart.unique hOther
      cases hSame
      obtain ⟨rfl, rfl⟩ := hParts.unique hOthers
      exact ⟨rfl, rfl⟩

theorem ChoicesAt.unique : ∀ {position stop : Nat} {parts : List Selector},
    ChoicesAt tokens position parts stop →
    ∀ {others : List Selector} {other : Nat}, ChoicesAt tokens position others other →
      parts = others ∧ stop = other
  | _, _, _, .none hParts hNone, others, other, h => by
    cases h with
    | none hOther => exact ⟨rfl, (hParts.unique hOther).2⟩
    | last hOther hPart =>
      obtain ⟨rfl, rfl⟩ := hParts.unique hOther
      simp [hNone] at hPart
    | next hOther hPart =>
      obtain ⟨rfl, rfl⟩ := hParts.unique hOther
      simp [hNone] at hPart
  | _, _, _, .last hParts hPart hLast, others, other, h => by
    cases h with
    | none hOther hNone =>
      obtain ⟨rfl, rfl⟩ := hParts.unique hOther
      simp [hPart] at hNone
    | last hOther hSame =>
      obtain ⟨rfl, rfl⟩ := hParts.unique hOther
      rw [hPart] at hSame
      cases hSame
      exact ⟨rfl, rfl⟩
    | next hOther _ hNext =>
      obtain ⟨-, rfl⟩ := hParts.unique hOther
      exact absurd hNext hLast
  | _, _, _, .next hParts hPart hNext hOthers, others, other, h => by
    cases h with
    | none hOther hNone =>
      obtain ⟨rfl, rfl⟩ := hParts.unique hOther
      simp [hPart] at hNone
    | last hOther _ hLast =>
      obtain ⟨-, rfl⟩ := hParts.unique hOther
      exact absurd hNext hLast
    | next hOther hSame _ hMore =>
      obtain ⟨rfl, rfl⟩ := hParts.unique hOther
      rw [hPart] at hSame
      cases hSame
      obtain ⟨rfl, rfl⟩ := hOthers.unique hMore
      exact ⟨rfl, rfl⟩

end

/-! ## Alternatives -/

/-- A call for parts, and what is made of them. -/
def Joined (join : List Selector → Option Selector) (call : List Selector → Nat → Prop)
    (result : Option Selector) (stop : Nat) : Prop :=
  ∃ parts, call parts stop ∧ result = join parts

/-- How a conjunction is read from a position on. -/
def ConjunctionAt (tokens : List Token) (position : Nat) : Option Selector → Nat → Prop :=
  Joined conjoin (OperandsAt tokens position)

/-- How the choice of a group is read from a position on. -/
def ChoiceAt (tokens : List Token) (position : Nat) : Option Selector → Nat → Prop :=
  Joined choose (ChoicesAt tokens position)

/-- How the alternatives from a position on are read, the next one with the given priority. -/
inductive AlternativesAt (tokens : List Token) : Priority → Nat → List Alternative → Prop
  | atEnd {priority : Priority} {position : Nat} (hEnd : tokens.length ≤ position) :
      AlternativesAt tokens priority position []
  | left {priority : Priority} {position : Nat} {alternatives : List Alternative}
      (hToken : tokens[position]? = some Token.left)
      (hRest : AlternativesAt tokens .high (position + 1) alternatives) :
      AlternativesAt tokens priority position alternatives
  | right {priority : Priority} {position : Nat} {alternatives : List Alternative}
      (hToken : tokens[position]? = some Token.right)
      (hRest : AlternativesAt tokens .low (position + 1) alternatives) :
      AlternativesAt tokens priority position alternatives
  | none {priority : Priority} {position stop : Nat} {token : Token}
      (hToken : tokens[position]? = some token) (hLeft : token ≠ Token.left)
      (hRight : token ≠ Token.right) (hNone : ConjunctionAt tokens position none stop) :
      AlternativesAt tokens priority position []
  | last {priority : Priority} {position stop : Nat} {token : Token} {selector : Selector}
      (hToken : tokens[position]? = some token) (hLeft : token ≠ Token.left)
      (hRight : token ≠ Token.right) (hSome : ConjunctionAt tokens position (some selector) stop)
      (hLast : tokens[stop]? ≠ some .comma) :
      AlternativesAt tokens priority position [⟨priority, selector⟩]
  | next {priority : Priority} {position stop : Nat} {token : Token} {selector : Selector}
      {others : List Alternative}
      (hToken : tokens[position]? = some token) (hLeft : token ≠ Token.left)
      (hRight : token ≠ Token.right) (hSome : ConjunctionAt tokens position (some selector) stop)
      (hNext : tokens[stop]? = some .comma)
      (hOthers : AlternativesAt tokens .normal (stop + 1) others) :
      AlternativesAt tokens priority position (⟨priority, selector⟩ :: others)

/-- A call has just one outcome.  It leaves the position where the reader of the tokens left ends,
and where it finds a selector, that is in normal form, and the position has moved forward and not
past the end. -/
def EndsWell (tokens : List Token) (position : Nat) (call : Option Selector → Nat → Prop)
    (read : Option Selector × List Token) : Prop :=
  ∃ stop, (∀ result other, call result other ↔ result = read.1 ∧ other = stop) ∧
    read.2 = tokens.drop stop ∧
    ∀ selector, read.1 = some selector →
      position < stop ∧ stop ≤ tokens.length ∧ selector.IsNormal

theorem endsWell_of_follows {tokens : List Token} {position : Nat}
    {call : Option Selector → Nat → Prop} {read : Option Selector × List Token}
    (h : Follows tokens position call Option.toList read)
    (hUnique : ∀ result stop, call result stop → ∀ answer other, call answer other →
      result = answer ∧ stop = other) : EndsWell tokens position call read := by
  obtain ⟨stop, hCall, hLeft, hMoves⟩ := h
  refine ⟨stop, fun result other => ⟨fun hOther => ?_, ?_⟩, hLeft, ?_⟩
  · obtain ⟨rfl, rfl⟩ := hUnique _ _ hCall _ _ hOther
    exact ⟨rfl, rfl⟩
  · rintro ⟨rfl, rfl⟩
    exact hCall
  · intro selector hFound
    have hMem : selector ∈ read.1.toList := Option.mem_toList.2 hFound
    have hForward := hMoves.forward (List.ne_nil_of_mem hMem)
    have hPast := hMoves.not_past
    exact ⟨hForward, by omega, hMoves.normal selector hMem⟩

theorem le_budgetFor_drop (tokens : List Token) (position : Nat) :
    3 * (tokens.length - position) + 3 ≤ budgetFor (tokens.drop position).length := by
  rw [budgetFor, List.length_drop]

theorem Follows.joined {tokens : List Token} {position : Nat} {call : List Selector → Nat → Prop}
    {read : List Selector × List Token} {join : List Selector → Option Selector}
    (h : Follows tokens position call id read) (hNil : join [] = none)
    (hNormal : ∀ {parts joined}, (∀ part ∈ parts, IsNormal part) → join parts = some joined →
      joined.IsNormal) :
    Follows tokens position (Joined join call) Option.toList (join read.1, read.2) := by
  obtain ⟨stop, hParts, hLeft, hMoves⟩ := h
  refine ⟨stop, ⟨read.1, hParts, rfl⟩, hLeft, hMoves.not_back, hMoves.not_past, ?_, ?_⟩
  · intro hFound
    refine hMoves.forward fun hNone => hFound ?_
    rw [id] at hNone
    rw [hNone, hNil, Option.toList_none]
  · exact fun selector hMem => hNormal hMoves.normal (Option.mem_toList.1 hMem)

theorem Joined.unique {call : List Selector → Nat → Prop} {stop other : Nat}
    {join : List Selector → Option Selector} {result answer : Option Selector}
    (hUnique : ∀ {parts stop}, call parts stop → ∀ {others other}, call others other →
      parts = others ∧ stop = other)
    (h : Joined join call result stop) (hOther : Joined join call answer other) :
    result = answer ∧ stop = other := by
  obtain ⟨parts, hParts, rfl⟩ := h
  obtain ⟨others, hOthers, rfl⟩ := hOther
  obtain ⟨rfl, rfl⟩ := hUnique hParts hOthers
  exact ⟨rfl, rfl⟩

theorem follows_readConjunction (tokens : List Token) (position : Nat) :
    Follows tokens position (ConjunctionAt tokens position) Option.toList
      (readConjunction (tokens.drop position)) := by
  have hBudget := Nat.le_of_succ_le (le_budgetFor_drop tokens position)
  exact (follows_readOperands tokens _ position hBudget).joined rfl isNormal_of_conjoin

theorem ConjunctionAt.readConjunction {tokens : List Token} {position stop : Nat}
    {result : Option Selector} (h : ConjunctionAt tokens position result stop) :
    readConjunction (tokens.drop position) = (result, tokens.drop stop) ∧
      Moves tokens position stop result.toList := by
  obtain ⟨other, hRead, hLeft, hMoves⟩ := follows_readConjunction tokens position
  obtain ⟨rfl, rfl⟩ := Joined.unique OperandsAt.unique h hRead
  exact ⟨Prod.ext rfl hLeft, hMoves⟩

/-- The alternatives that reading in place gives, all of them in normal form. -/
theorem alternativesAt_readAlternatives {tokens : List Token} {budget : Nat} (priority : Priority)
    (position : Nat) (hBudget : tokens.length - position < budget) :
    AlternativesAt tokens priority position
        (readAlternatives budget priority (tokens.drop position)) ∧
      ∀ alternative ∈ readAlternatives budget priority (tokens.drop position),
        alternative.selector.IsNormal := by
  induction budget generalizing priority position with
  | zero => exact absurd hBudget (Nat.not_lt_zero _)
  | succ budget ih =>
    cases hTokens : tokens.drop position with
    | nil => exact ⟨.atEnd (List.drop_eq_nil_iff.1 hTokens), by simp [readAlternatives]⟩
    | cons token rest =>
      obtain ⟨hToken, hRest, hInside⟩ := getElem?_of_drop hTokens
      obtain ⟨stop, hRead, hLeft, hMoves⟩ := follows_readConjunction tokens position
      have hNext (next : Priority) := ih next (position + 1) (by omega)
      rw [readAlternatives]
      by_cases hHigh : token = Token.left
      · rw [if_pos hHigh, ← hRest]
        exact ⟨.left (hHigh ▸ hToken) (hNext .high).1, (hNext .high).2⟩
      by_cases hLow : token = Token.right
      · rw [if_neg hHigh, if_pos hLow, ← hRest]
        exact ⟨.right (hLow ▸ hToken) (hNext .low).1, (hNext .low).2⟩
      rw [if_neg hHigh, if_neg hLow, ← hTokens]
      split
      · next selector more hFound =>
        rw [hFound] at hRead hLeft hMoves
        have hForward := hMoves.forward (by simp)
        have hNormal := hMoves.normal selector (by simp)
        obtain ⟨hComma, hMore, hBefore⟩ := getElem?_of_drop hLeft.symm
        obtain ⟨hOthers, hAll⟩ := ih .normal (stop + 1) (by omega)
        rw [← hMore]
        exact ⟨.next hToken hHigh hLow hRead hComma hOthers,
          List.forall_mem_cons.2 ⟨hNormal, hAll⟩⟩
      · next selector more hOther hFound =>
        rw [hFound] at hRead hLeft hMoves
        have hNormal := hMoves.normal selector (by simp)
        refine ⟨.last hToken hHigh hLow hRead fun hComma => ?_, by simpa⟩
        rw [← List.head?_drop] at hComma
        obtain ⟨after, hAfter⟩ := List.head?_eq_some_iff.1 hComma
        exact hOther after (hLeft.trans hAfter)
      · next more hFound =>
        rw [hFound] at hRead
        exact ⟨.none hToken hHigh hLow hRead, by simp⟩

theorem drop_of_getElem? {tokens : List Token} {position : Nat} {token : Token}
    (h : tokens[position]? = some token) :
    tokens.drop position = token :: tokens.drop (position + 1) ∧ position < tokens.length := by
  obtain ⟨hInside, rfl⟩ := List.getElem?_eq_some_iff.1 h
  exact ⟨List.drop_eq_getElem_cons hInside, hInside⟩

/-- Reading in place gives what the reader of the tokens left gives. -/
theorem AlternativesAt.readAlternatives {tokens : List Token} {priority : Priority} {position : Nat}
    {alternatives : List Alternative} (h : AlternativesAt tokens priority position alternatives)
    {budget : Nat} (hBudget : tokens.length - position < budget) :
    readAlternatives budget priority (tokens.drop position) = alternatives := by
  induction h generalizing budget with
  | atEnd hEnd =>
    obtain ⟨budget, rfl⟩ : ∃ fewer, budget = fewer + 1 := ⟨budget - 1, by omega⟩
    rw [List.drop_eq_nil_of_le hEnd, Selector.readAlternatives]
  | left hToken hRest ih =>
    obtain ⟨hTokens, hInside⟩ := drop_of_getElem? hToken
    obtain ⟨budget, rfl⟩ : ∃ fewer, budget = fewer + 1 := ⟨budget - 1, by omega⟩
    rw [hTokens, Selector.readAlternatives, if_pos rfl, ih (by omega)]
  | right hToken hRest ih =>
    obtain ⟨hTokens, hInside⟩ := drop_of_getElem? hToken
    obtain ⟨budget, rfl⟩ : ∃ fewer, budget = fewer + 1 := ⟨budget - 1, by omega⟩
    rw [hTokens, Selector.readAlternatives, if_neg (by decide), if_pos rfl, ih (by omega)]
  | none hToken hLeft hRight hNone =>
    obtain ⟨hTokens, hInside⟩ := drop_of_getElem? hToken
    obtain ⟨budget, rfl⟩ : ∃ fewer, budget = fewer + 1 := ⟨budget - 1, by omega⟩
    rw [hTokens, Selector.readAlternatives, if_neg hLeft, if_neg hRight, ← hTokens,
      hNone.readConjunction.1]
  | @last priority position stop token selector hToken hLeft hRight hSome hLast =>
    obtain ⟨hTokens, hInside⟩ := drop_of_getElem? hToken
    obtain ⟨budget, rfl⟩ : ∃ fewer, budget = fewer + 1 := ⟨budget - 1, by omega⟩
    rw [hTokens, Selector.readAlternatives, if_neg hLeft, if_neg hRight, ← hTokens,
      hSome.readConjunction.1]
    split
    · next hComma =>
      rw [← List.head?_drop, (Prod.mk.inj hComma).2] at hLast
      exact absurd rfl hLast
    · next hFound => rw [Option.some.inj (Prod.mk.inj hFound).1]
    · next hNone => cases hNone
  | next hToken hLeft hRight hSome hNext hOthers ih =>
    obtain ⟨hTokens, hInside⟩ := drop_of_getElem? hToken
    obtain ⟨hMore, hInsideNext⟩ := drop_of_getElem? hNext
    obtain ⟨hRead, hMoves⟩ := hSome.readConjunction
    have hForward := hMoves.forward (by simp)
    obtain ⟨budget, rfl⟩ : ∃ fewer, budget = fewer + 1 := ⟨budget - 1, by omega⟩
    rw [hTokens, Selector.readAlternatives, if_neg hLeft, if_neg hRight, ← hTokens,
      hRead, hMore]
    dsimp only
    rw [ih (by omega)]

/-- Any text is read.  Its tokens are slices of it, and reading them in place comes to an end at the
alternatives of the text, every look at a token and every cut being at a place that is there.  On
any tokens and from any position, a call for an operand, a conjunction or the choice of a group
ends with what the reader of the tokens left gives, and one that finds a selector has moved forward
and not past the end. Every selector is in normal form, and without tokens there is none. -/
theorem any_text_is_read (text : String) :
    CutsFrom text.toList 0 (Token.scan text.toList) ∧
    (∀ alternatives, AlternativesAt (Token.scan text.toList) .normal 0 alternatives ↔
      alternatives = read text) ∧
    (∀ alternative ∈ read text, alternative.selector.IsNormal) ∧
    (Token.scan text.toList = [] → read text = []) ∧
    ∀ tokens position,
      EndsWell tokens position (OperandAt tokens position)
        (readOperand (budgetFor (tokens.drop position).length) (tokens.drop position)) ∧
      EndsWell tokens position (ConjunctionAt tokens position)
        (readConjunction (tokens.drop position)) ∧
      EndsWell tokens position (ChoiceAt tokens position)
        ((readChoices (budgetFor (tokens.drop position).length) (tokens.drop position)).map
          choose id) := by
  have hBudget : (Token.scan text.toList).length - 0 < (Token.scan text.toList).length + 1 :=
    Nat.lt_succ_self _
  obtain ⟨hRead, hNormal⟩ := alternativesAt_readAlternatives .normal 0 hBudget
  rw [List.drop_zero] at hRead hNormal
  refine ⟨cutsFrom_scan text.toList, fun alternatives => ⟨fun h => ?_, ?_⟩, hNormal, ?_,
    fun tokens position => ⟨?_, ?_, ?_⟩⟩
  · exact (h.readAlternatives hBudget).symm
  · rintro rfl
    exact hRead
  · intro hNone
    rw [read, hNone]
    rfl
  · have hEnough : 3 * (tokens.length - position) + 1 ≤ _ :=
      Nat.le_trans (Nat.le_add_right _ 2) (le_budgetFor_drop tokens position)
    exact endsWell_of_follows (follows_readOperand tokens _ position hEnough)
      fun _ _ h _ _ hOther => h.unique hOther
  · exact endsWell_of_follows (follows_readConjunction tokens position)
      fun _ _ h _ _ hOther => Joined.unique OperandsAt.unique h hOther
  · have hEnough := le_budgetFor_drop tokens position
    exact endsWell_of_follows
      ((follows_readChoices tokens _ position hEnough).joined rfl isNormal_of_choose)
      fun _ _ h _ _ hOther => Joined.unique ChoicesAt.unique h hOther

/-- Marks of priority one after another, an exclusion of nothing, a choice with nothing at the end
and a group that is not closed. -/
example :
    read "L: R: a.b.*.c - , (x, (x | y, x), ) ( , z" =
      [⟨.low, path ["a.b"]⟩, ⟨.normal, any [path ["x"], any [path ["x"], path ["y"]]]⟩,
        ⟨.normal, path ["z"]⟩] := by decide

end GrammarSearch.Selector
