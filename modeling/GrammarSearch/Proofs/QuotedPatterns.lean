import GrammarSearch.Pattern.Template
import GrammarSearch.Pattern.Reader

/-!
# How quoted texts are read

A quoted text is read back as the literals of its characters, whatever those are: what quoting
leaves alone starts no token of its own, and what it puts a backslash before means nothing special
there.  The literals are then put together to a single text.

## Main results

* `scan_quote`: the tokens of a quoted text, with more text after it or none.
* `assemble_literals`: literals between anchors become one text between them.
-/

namespace GrammarSearch.Pattern

/-! ## Tokens -/

/-- Whether quoting writes a character by a name of its own. -/
def isNamed (c : Char) : Bool :=
  c == '\n' || c == '\r' || c == '\t'

/-- The tokens of a quoted text. -/
def literals (text : List Char) : List Token :=
  text.map fun c => .literal c (isNamed c)

/-- A character that quoting leaves alone stands for itself. -/
theorem readFirst_of_plain {c : Char} (h : c = ' ' ∨ c.isAlphanum ∨ 0x80 ≤ c.toNat) (opened : Nat)
    (rest : List Char) : Token.readFirst opened c rest = (.literal c false, rest) := by
  unfold Token.readFirst
  split
  case h_13 => rfl
  all_goals
    exact absurd h (by decide)

/-- A symbol after a backslash stands for itself. -/
theorem readEscape_of_symbol {c : Char} (h : ¬ c.isAlphanum) (opened : Nat) (rest : List Char) :
    Token.readEscape opened (c :: rest) = (.literal c false, rest) := by
  have hDigit : ¬ c.isDigit := by
    intro hIs
    apply h
    simp [Char.isAlphanum, hIs]
  have hControl : Token.control? c = none := by
    unfold Token.control?
    split
    case h_8 => rfl
    all_goals
      exact absurd h (by decide)
  have hKind : Token.kind? c = none := by
    unfold Token.kind?
    split
    case h_9 => rfl
    all_goals
      exact absurd h (by decide)
  have hAnchor : Token.anchor? c = none := by
    unfold Token.anchor?
    split
    case h_7 => rfl
    all_goals
      exact absurd h (by decide)
  rw [Token.readEscape, if_neg hDigit, hControl, hKind, hAnchor]

/-- What a character is quoted as is read back as its literal. -/
theorem exists_readFirst_quoteChar (c : Char) :
    ∃ head tail, quoteChar c = head :: tail ∧ ∀ opened rest,
      Token.readFirst opened head (tail ++ rest) = (.literal c (isNamed c), rest) := by
  unfold quoteChar
  by_cases hFeed : c = '\n'
  · subst hFeed
    exact ⟨'\\', ['n'], rfl, fun _ _ => rfl⟩
  by_cases hReturn : c = '\r'
  · subst hReturn
    exact ⟨'\\', ['r'], rfl, fun _ _ => rfl⟩
  by_cases hTab : c = '\t'
  · subst hTab
    exact ⟨'\\', ['t'], rfl, fun _ _ => rfl⟩
  have hNamed : isNamed c = false := by
    simp [isNamed, hFeed, hReturn, hTab]
  rw [if_neg hFeed, if_neg hReturn, if_neg hTab, hNamed]
  by_cases hPlain : c = ' ' ∨ c.isAlphanum ∨ 0x80 ≤ c.toNat
  · rw [if_pos hPlain]
    exact ⟨c, [], rfl, fun opened rest => readFirst_of_plain hPlain opened rest⟩
  · rw [if_neg hPlain]
    have hSymbol : ¬ c.isAlphanum := fun hIs => hPlain (Or.inr (Or.inl hIs))
    exact ⟨'\\', [c], rfl, fun opened rest => readEscape_of_symbol hSymbol opened rest⟩

/-- A quoted text is read back as its literals, and reading goes on after it with budget enough for
what is left. -/
theorem exists_scanFrom_quote (text : List Char) (opened : Nat) (rest : List Char) :
    ∀ budget, (quote text ++ rest).length ≤ budget → ∃ left, rest.length ≤ left ∧
      Token.scanFrom budget opened (quote text ++ rest) =
        literals text ++ Token.scanFrom left opened rest := by
  induction text with
  | nil => exact fun budget hBudget => ⟨budget, hBudget, rfl⟩
  | cons c text ih =>
    intro budget hBudget
    obtain ⟨head, tail, hQuote, hRead⟩ := exists_readFirst_quoteChar c
    have hSplit : quote (c :: text) ++ rest = head :: (tail ++ (quote text ++ rest)) := by
      simp [hQuote]
    rw [hSplit, List.length_cons, List.length_append] at hBudget
    obtain ⟨budget, rfl⟩ : ∃ fewer, budget = fewer + 1 := ⟨budget - 1, by omega⟩
    obtain ⟨left, hLeft, hScan⟩ := ih budget (by omega)
    refine ⟨left, hLeft, ?_⟩
    rw [hSplit, Token.scanFrom, hRead]
    show _ :: Token.scanFrom budget opened (quote text ++ rest) = _
    rw [hScan]
    rfl

/-- The tokens of a quoted text. -/
theorem scan_quote (text : List Char) : Token.scan (quote text) = literals text := by
  obtain ⟨left, -, hScan⟩ := exists_scanFrom_quote text 0 [] (quote text).length (by simp)
  rw [List.append_nil] at hScan
  rw [Token.scan, hScan]
  cases left with
  | zero => simp [Token.scanFrom]
  | succ left => simp [Token.scanFrom]

/-- The tokens of a quoted text between the anchors of a line. -/
theorem scan_quotedLine (text : List Char) :
    Token.scan ('^' :: quote text ++ ['$']) =
      .anchor .lineStart :: literals text ++ [.anchor .lineEnd] := by
  obtain ⟨left, hLeft, hScan⟩ := exists_scanFrom_quote text 0 ['$'] (quote text ++ ['$']).length
    (Nat.le_refl _)
  obtain ⟨left, rfl⟩ : ∃ fewer, left = fewer + 1 := ⟨left - 1, by simp at hLeft; omega⟩
  show Token.anchor .lineStart ::
    Token.scanFrom (quote text ++ ['$']).length 0 (quote text ++ ['$']) = _
  rw [hScan]
  cases left with
  | zero => rfl
  | succ left => rfl

/-! ## Frames -/

/-- The item is one expression and stays so where it is put into a sequence. -/
def Item.Single (item : Item) : Prop :=
  item.front = none ∧ ∀ parts, item.expr ≠ .seq parts

theorem Item.single_text (chars : List Char) (ignoreCase growing : Bool) :
    Item.Single { expr := .text chars ignoreCase, growing } :=
  ⟨rfl, fun _ => nofun⟩

theorem Item.single_anchor (anchor : Anchor) : Item.Single { expr := .anchor anchor } :=
  ⟨rfl, fun _ => nofun⟩

namespace Frame

/-- The expressions of the current alternative, latest first. -/
def contents (frame : Frame) : List Expr :=
  (frame.latest.map Item.expr).toList ++ frame.items

theorem settled_eq_contents {frame : Frame}
    (h : ∀ item, frame.latest = some item → item.Single) : frame.settled = frame.contents := by
  unfold settled contents
  cases hLatest : frame.latest with
  | none => rfl
  | some item =>
    obtain ⟨hFront, hSeq⟩ := h item hLatest
    have hWhole : item.whole = item.expr := by
      rw [Item.whole, hFront]
    cases frame.items with
    | nil => simp [hWhole]
    | cons first rest => simp [hWhole]

/-- The frame holds some expressions and then texts that spell a text. -/
structure Spells (frame : Frame) (front : List Expr) (text : List Char) : Prop where
  options_eq : frame.options = {}
  alternatives_eq : frame.alternatives = []
  single : ∀ item, frame.latest = some item → item.Single
  texts : ∃ texts : List (List Char), [] ∉ texts ∧ texts.flatten = text ∧
    frame.contents = (texts.map (Expr.text · false)).reverse ++ front

/-- The frame after the literals of a text. -/
def pushText (frame : Frame) (text : List Char) : Frame :=
  text.foldl (fun frame c => frame.pushLiteral c (isNamed c)) frame

variable {frame : Frame} {front : List Expr} {text : List Char}

/-- One more text of a single character. -/
theorem Spells.push (h : frame.Spells front text) (c : Char) (growing : Bool) :
    (frame.push { expr := .text [c] frame.options.ignoreCase, growing }).Spells front
      (text ++ [c]) := by
  obtain ⟨texts, hNonempty, rfl, hContents⟩ := h.texts
  refine ⟨h.options_eq, h.alternatives_eq, ?_, texts ++ [[c]], ?_, ?_, ?_⟩
  · intro item hItem
    obtain rfl := Option.some.inj hItem
    exact Item.single_text [c] frame.options.ignoreCase growing
  · simpa using hNonempty
  · simp
  · show Expr.text [c] frame.options.ignoreCase :: frame.settled = _
    rw [settled_eq_contents h.single, hContents, h.options_eq]
    simp

/-- One more literal, which continues the text read last or starts another one. -/
theorem Spells.pushLiteral (h : frame.Spells front text)
    (hFront : ∀ chars ignoreCase, front.head? ≠ some (.text chars ignoreCase)) (c : Char)
    (coded : Bool) : (frame.pushLiteral c coded).Spells front (text ++ [c]) := by
  unfold Frame.pushLiteral
  dsimp only
  split
  case h_1 chars ignoreCase itemFront enclosed hLatest =>
    split
    · exact h.push c (!coded)
    · obtain ⟨texts, hNonempty, rfl, hContents⟩ := h.texts
      have hLast : frame.contents = .text chars ignoreCase :: frame.items := by
        rw [contents, hLatest]
        rfl
      rw [hLast] at hContents
      rcases List.eq_nil_or_concat texts with rfl | ⟨earlier, last, rfl⟩
      · exact absurd (congrArg List.head? hContents.symm) (hFront chars ignoreCase)
      · simp only [List.concat_eq_append, List.map_append, List.map_cons, List.map_nil,
          List.reverse_append, List.reverse_cons, List.reverse_nil, List.nil_append,
          List.cons_append, List.cons.injEq, Expr.text.injEq] at hContents
        obtain ⟨⟨rfl, rfl⟩, hItems⟩ := hContents
        refine ⟨h.options_eq, h.alternatives_eq, ?_, earlier ++ [chars ++ [c]], ?_, ?_, ?_⟩
        · intro item hItem
          obtain rfl := Option.some.inj hItem
          exact Item.single_text (chars ++ [c]) false true
        · have hEarlier : [] ∉ earlier := fun hMem => hNonempty (by simp [hMem])
          simp [hEarlier]
        · simp
        · show Expr.text (chars ++ [c]) false :: frame.items = _
          rw [hItems]
          simp
  case h_2 => exact h.push c (!coded)

theorem Spells.pushText {start : List Char} (h : frame.Spells front start)
    (hFront : ∀ chars ignoreCase, front.head? ≠ some (.text chars ignoreCase)) (text : List Char) :
    (frame.pushText text).Spells front (start ++ text) := by
  induction text generalizing frame start with
  | nil =>
    rw [List.append_nil]
    exact h
  | cons c text ih =>
    have hNext := ih (h.pushLiteral hFront c (isNamed c))
    rw [List.append_assoc] at hNext
    exact hNext

end Frame

/-! ## Joining -/

/-- A text as the items of a sequence: none if it is empty. -/
def textItems : List Char → List Expr
  | [] => []
  | c :: rest => [.text (c :: rest) false]

theorem textItems_of_ne_nil {text : List Char} (h : text ≠ []) :
    textItems text = [.text text false] := by
  cases text with
  | nil => contradiction
  | cons c rest => rfl

/-- Texts that are not empty are joined to one before what is no text. -/
theorem joinTexts_texts {texts : List (List Char)} (hNonempty : [] ∉ texts) {rest : List Expr}
    (hRest : ∀ chars ignoreCase, (joinTexts rest).head? ≠ some (.text chars ignoreCase)) :
    joinTexts (texts.map (Expr.text · false) ++ rest) =
      textItems texts.flatten ++ joinTexts rest := by
  induction texts with
  | nil => rfl
  | cons chars others ih =>
    have hOthers := ih fun hMem => hNonempty (List.mem_cons_of_mem chars hMem)
    obtain ⟨c, chars, rfl⟩ : ∃ c rest, chars = c :: rest :=
      List.exists_cons_of_ne_nil fun hNil => hNonempty (hNil ▸ List.mem_cons_self)
    rw [List.map_cons, List.cons_append, joinTexts, hOthers, List.flatten_cons]
    cases others.flatten with
    | nil =>
      rw [textItems, List.nil_append, List.append_nil]
      split
      case h_1 others sameCase after hJoined =>
        exact absurd (congrArg List.head? hJoined) (hRest others sameCase)
      case h_2 => rfl
    | cons d more => rfl

/-- A frame that is at its first alternative holds nothing else. -/
theorem Frame.expr_of_alternatives_eq_nil {frame : Frame} (h : frame.alternatives = []) :
    frame.expr = frame.alternative := by
  rw [expr, h]
  rfl

/-- Two items or more are a sequence. -/
theorem Frame.alternative_of_le_length {frame : Frame} (h : 2 ≤ frame.settled.length) :
    frame.alternative = .seq (joinTexts frame.settled.reverse) := by
  unfold Frame.alternative
  split
  case h_1 hNone =>
    rw [hNone] at h
    exact absurd h (by decide)
  case h_2 item hOne =>
    rw [hOne] at h
    exact absurd h (by simp)
  case h_3 => rfl

/-- Without anything in front, the alternative is one text, or a sequence of nothing else. -/
theorem Frame.Spells.alternative {frame : Frame} {text : List Char} (h : frame.Spells [] text) :
    frame.alternative = .text text false ∨ frame.alternative = .seq [.text text false] := by
  obtain ⟨texts, hNonempty, rfl, hContents⟩ := h.texts
  have hSettled : frame.settled = (texts.map (Expr.text · false)).reverse := by
    rw [settled_eq_contents h.single, hContents, List.append_nil]
  match texts with
  | [] =>
    left
    rw [Frame.alternative, hSettled]
    rfl
  | [chars] =>
    left
    rw [Frame.alternative, hSettled, List.flatten_singleton]
    rfl
  | first :: second :: others =>
    right
    rw [alternative_of_le_length (by simp [hSettled]), hSettled, List.reverse_reverse]
    have hJoined : joinTexts ((first :: second :: others).map (Expr.text · false) ++ []) = _ :=
      joinTexts_texts hNonempty fun _ _ => nofun
    have hFirst : first ≠ [] := fun hNil => hNonempty (hNil ▸ List.mem_cons_self)
    rw [List.append_nil] at hJoined
    rw [hJoined, textItems_of_ne_nil (by simp [hFirst])]
    rfl

/-- A text between two anchors. -/
theorem Frame.Spells.alternative_of_anchors {frame : Frame} {text : List Char} {first : Anchor}
    (h : frame.Spells [.anchor first] text) (last : Anchor) :
    (frame.pushExpr (.anchor last)).alternative =
      .seq (.anchor first :: textItems text ++ [.anchor last]) := by
  obtain ⟨texts, hNonempty, rfl, hContents⟩ := h.texts
  have hSettled : (frame.pushExpr (.anchor last)).settled =
      .anchor last :: (texts.map (Expr.text · false)).reverse ++ [.anchor first] := by
    have hSingle : ∀ item, (frame.pushExpr (.anchor last)).latest = some item → item.Single := by
      intro item hItem
      obtain rfl := Option.some.inj hItem
      exact Item.single_anchor last
    rw [settled_eq_contents hSingle, List.cons_append, ← hContents, ← settled_eq_contents h.single]
    rfl
  have hJoined : joinTexts (texts.map (Expr.text · false) ++ [.anchor last]) = _ :=
    joinTexts_texts hNonempty fun _ _ => nofun
  rw [alternative_of_le_length (by simp [hSettled]), hSettled]
  simp only [List.cons_append, List.reverse_cons, List.reverse_append, List.reverse_reverse,
    List.reverse_nil, List.nil_append]
  rw [joinTexts, hJoined]
  · rfl
  · exact fun _ _ => nofun

/-! ## Expressions -/

/-- Literals are put into the innermost frame. -/
theorem assemble_literals (text : List Char) (inner : Frame) (below : List Frame)
    (tokens : List Token) :
    assemble inner below (literals text ++ tokens) =
      assemble (inner.pushText text) below tokens := by
  induction text generalizing inner with
  | nil => rfl
  | cons c text ih =>
    rw [literals, List.map_cons, List.cons_append, assemble]
    exact ih (inner.pushLiteral c (isNamed c))

/-- A pattern that is a quoted text is that text. -/
theorem assemble_quote (text : List Char) :
    ∃ expr, assemble { kind := .whole } [] (Token.scan (quote text)) = .ok expr ∧
      (expr = .text text false ∨ expr = .seq [.text text false]) := by
  have hStart : Frame.Spells { kind := .whole } [] [] :=
    ⟨rfl, rfl, fun _ => nofun, [], List.not_mem_nil, rfl, rfl⟩
  have hFrame : Frame.Spells (Frame.pushText { kind := .whole } text) [] text :=
    hStart.pushText (fun _ _ => nofun) text
  refine ⟨_, ?_, hFrame.alternative⟩
  have hAssemble := assemble_literals text { kind := .whole } [] []
  rw [List.append_nil] at hAssemble
  rw [scan_quote, hAssemble, assemble, closeSwitched]
  exact congrArg _ (Frame.expr_of_alternatives_eq_nil hFrame.alternatives_eq)

/-- A pattern that is a quoted text between the anchors of a line is that text between them. -/
theorem assemble_quotedLine (text : List Char) :
    assemble { kind := .whole } [] (Token.scan ('^' :: quote text ++ ['$'])) =
      .ok (.seq (.anchor .lineStart :: textItems text ++ [.anchor .lineEnd])) := by
  have hStart : Frame.Spells (Frame.pushExpr { kind := .whole } (.anchor .lineStart))
      [.anchor .lineStart] [] := by
    refine ⟨rfl, rfl, ?_, [], List.not_mem_nil, rfl, rfl⟩
    intro item hItem
    obtain rfl := Option.some.inj hItem
    exact Item.single_anchor .lineStart
  have hFrame :
      (Frame.pushText (Frame.pushExpr { kind := .whole } (.anchor .lineStart)) text).Spells
        [.anchor .lineStart] text := hStart.pushText (fun _ _ => nofun) text
  rw [scan_quotedLine, List.cons_append, assemble, assemble_literals]
  generalize Frame.pushText (Frame.pushExpr { kind := .whole } (.anchor .lineStart)) text = frame
    at hFrame ⊢
  have hFirst : (frame.pushExpr (.anchor .lineEnd)).alternatives = [] := hFrame.alternatives_eq
  rw [assemble, assemble, closeSwitched, ← hFrame.alternative_of_anchors .lineEnd]
  exact congrArg _ (Frame.expr_of_alternatives_eq_nil hFirst)

end GrammarSearch.Pattern
