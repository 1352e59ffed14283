import GrammarSearch.Proofs.BoundedLeads
import GrammarSearch.Proofs.LosslessQuoting
import GrammarSearch.Proofs.QuotedPatterns

/-!
# Searching for a quoted text

A dialect reads literally if every pattern whose glyphs are such as quoting writes finds the first
occurrence of the text that it spells, and if between the anchors of a line it finds a text without
line feeds only if that is the whole of it.  In such a dialect a quoted text is found as itself,
whatever it is made of.

The standard dialect reads literally: a search for a quoted text tries every place from its offset
on, and at each place it asks whether the text goes on with the quoted one.

## Main results

* `Dialect.ReadsLiterally.search_quote`: a quoted text is found where it first occurs.
* `Dialect.ReadsLiterally.search_quotedLine`: a quoted text between anchors is found exactly in
  itself.
* `run_textPlan`: where the plan of a text leads to.
* `readsLiterally_standard`: the standard dialect reads literally.
-/

namespace GrammarSearch

/-! ## Occurrences -/

namespace Text

/-- A text stands at an offset of another one. -/
def OccursAt (text part : List Char) (offset : Nat) : Prop :=
  ∃ before after, before ++ part ++ after = text ∧ byteLength before = offset

theorem eq_nil_of_byteLength_eq_zero {text : List Char} (h : byteLength text = 0) : text = [] := by
  cases text with
  | nil => rfl
  | cons c rest =>
    have hPos := c.utf8Size_pos
    rw [byteLength_cons] at h
    omega

/-- What occurs behind a leading part occurs in the rest. -/
theorem occursAt_append_iff {before after part : List Char} {offset : Nat}
    (h : byteLength before ≤ offset) :
    OccursAt (before ++ after) part offset ↔ ∃ passed rest, passed ++ rest = after ∧
      part <+: rest ∧ offset = byteLength before + byteLength passed := by
  constructor
  · rintro ⟨front, back, hText, rfl⟩
    rw [List.append_assoc] at hText
    rcases List.append_eq_append_iff.1 hText with ⟨more, rfl, hAfter⟩ | ⟨passed, rfl, rfl⟩
    · rw [byteLength_append] at h
      obtain rfl : more = [] := eq_nil_of_byteLength_eq_zero (by omega)
      exact ⟨[], after, rfl, ⟨back, hAfter⟩, by simp⟩
    · exact ⟨passed, part ++ back, rfl, List.prefix_append part back, byteLength_append _ _⟩
  · rintro ⟨passed, rest, rfl, ⟨back, rfl⟩, rfl⟩
    exact ⟨before ++ passed, back, by simp, byteLength_append _ _⟩

end Text

/-- A match is of the first occurrence of a part at or after an offset, and found if there is one.
-/
structure Match.IsFirst (hit : Match) (text part : List Char) (offset : Nat) : Prop where
  found_iff : hit.found = true ↔ ∃ place, offset ≤ place ∧ Text.OccursAt text part place
  stop_eq : ∀ span, hit.span? 0 = some span → span.stop = span.start + Text.byteLength part
  occurs : ∀ span, hit.span? 0 = some span →
    offset ≤ span.start ∧ Text.OccursAt text part span.start
  least : ∀ span, hit.span? 0 = some span → ∀ place, offset ≤ place →
    Text.OccursAt text part place → span.start ≤ place

namespace Pattern

open Text

/-! ## Dialects that read literally -/

/-- A dialect finds patterns as the texts that they spell, if quoting could have written them. -/
structure Dialect.ReadsLiterally (dialect : Dialect) : Prop where
  /-- What is found is the first occurrence of the text that the pattern spells. -/
  first : ∀ pattern, (∀ glyph ∈ glyphs pattern, glyph.IsQuoted) →
    ∃ find, dialect.compile (String.ofList pattern) = .ok find ∧ ∀ before after,
      (matchOf (find before after)).IsFirst (before ++ after) (readLiterally pattern)
        (byteLength before)
  /-- Between the anchors of a line, something is found in a text without line feeds just where that
  is the text that the pattern spells. -/
  whole : ∀ pattern, (∀ glyph ∈ glyphs pattern, glyph.IsQuoted) →
    ∃ find, dialect.compile (String.ofList ('^' :: pattern ++ ['$'])) = .ok find ∧
      ∀ text, '\n' ∉ text → ((find [] text).isSome = true ↔ text = readLiterally pattern)

theorem isQuoted_of_mem_glyphs_quote (text : List Char) :
    ∀ glyph ∈ glyphs (quote text), glyph.IsQuoted :=
  mem_range_quote_iff.1 ⟨text, rfl⟩

theorem found_matchOf (found : Option Found) : (matchOf found).found = found.isSome := by
  cases found with
  | none => rfl
  | some found => rfl

namespace Dialect.ReadsLiterally

variable {dialect : Dialect} (h : dialect.ReadsLiterally)

include h

/-- A quoted text is found where it first occurs at or after the offset. -/
theorem search_quote (text : List Char) (line : Line) {before after : List Char}
    (hSplit : before ++ after = line.chars) :
    ∃ hit, dialect.search ⟨String.ofList (quote text)⟩ line (byteLength before) = .ok hit ∧
      hit.IsFirst line.chars text (byteLength before) := by
  obtain ⟨find, hCompile, hFirst⟩ := h.first (quote text) (isQuoted_of_mem_glyphs_quote text)
  refine ⟨_, search_eq_ok hCompile hSplit, ?_⟩
  have hHere := hFirst before after
  rw [readLiterally_quote, hSplit] at hHere
  exact hHere

/-- A quoted text between the anchors of a line is found in a text without line feeds exactly if it
is that text. -/
theorem search_quotedLine (text : List Char) (line : Line) (hLine : '\n' ∉ line.chars) :
    ∃ hit, dialect.search ⟨String.ofList ('^' :: quote text ++ ['$'])⟩ line 0 = .ok hit ∧
      (hit.found = true ↔ line.chars = text) := by
  obtain ⟨find, hCompile, hWhole⟩ := h.whole (quote text) (isQuoted_of_mem_glyphs_quote text)
  refine ⟨_, search_eq_ok hCompile (List.nil_append line.chars), ?_⟩
  rw [found_matchOf, hWhole line.chars hLine, readLiterally_quote]

end Dialect.ReadsLiterally

/-! ## Plans -/

/-- The plan of a text. -/
def textPlan : List Char → Plan
  | [] => .empty
  | c :: rest => .text (c :: rest)

/-- The plan of a text between the anchors of a line. -/
def linePlan : List Char → Plan
  | [] => .seq (.anchor .lineStart) (.anchor .lineEnd)
  | c :: rest => .seq (.anchor .lineStart) (.seq (.text (c :: rest)) (.anchor .lineEnd))

/-- A text is tried at all places. -/
theorem ofExpr_text (text : List Char) :
    Program.ofExpr (.text text false) 0 = ⟨textPlan text, .all, 0⟩ := by
  have hReach : (Expr.lead {} (.text text false) .zero).reach = .all :=
    (bounded_lead (show Expr.IsFlat (.text text false) from trivial) {} rfl).reach
  cases text with
  | nil => exact congrArg (Program.mk _ · 0) hReach
  | cons c rest => exact congrArg (Program.mk _ · 0) hReach

/-- So is a sequence of nothing but a text. -/
theorem ofExpr_seq_text (text : List Char) :
    Program.ofExpr (.seq [.text text false]) 0 = ⟨textPlan text, .all, 0⟩ := by
  have hReach : (Expr.lead {} (.seq [.text text false]) .zero).reach = .all := by
    apply Lead.Bounded.reach
    apply bounded_leadOfAll
    · simp [Expr.IsFlat]
    · exact Lead.bounded_unknown rfl
    · rfl
  cases text with
  | nil => exact congrArg (Program.mk _ · 0) hReach
  | cons c rest => exact congrArg (Program.mk _ · 0) hReach

/-- So is a text between the anchors of a line. -/
theorem ofExpr_line (text : List Char) :
    Program.ofExpr (.seq (.anchor .lineStart :: textItems text ++ [.anchor .lineEnd])) 0 =
      ⟨linePlan text, .all, 0⟩ := by
  have hReach : (Expr.lead {} (.seq (.anchor .lineStart :: textItems text ++ [.anchor .lineEnd]))
      .zero).reach = .all := by
    apply Lead.Bounded.reach
    apply bounded_leadOfAll
    · cases text with
      | nil => simp [textItems, Expr.IsFlat]
      | cons c rest => simp [textItems, Expr.IsFlat]
    · exact Lead.bounded_unknown rfl
    · rfl
  cases text with
  | nil => exact congrArg (Program.mk _ · 0) hReach
  | cons c rest => exact congrArg (Program.mk _ · 0) hReach

/-- Literals open no group. -/
theorem foldl_openedAfter_literals (text : List Char) (opened : Nat) :
    (literals text).foldl Token.openedAfter opened = opened := by
  induction text with
  | nil => rfl
  | cons c text ih => exact ih

/-- A pattern without groups compiles if it can be put together. -/
theorem compile_of_assemble {pattern : List Char} {expr : Expr}
    (hAssemble : assemble { kind := .whole } [] (Token.scan pattern) = .ok expr)
    (hReferences : expr.references = []) (hCount : groupCount (Token.scan pattern) = 0) :
    compile pattern = .ok (.ofExpr expr 0) := by
  unfold compile
  dsimp only
  rw [hAssemble, hCount]
  show (if expr.references.all _ = true then _ else _) = _
  rw [hReferences]
  rfl

/-- A quoted text compiles. -/
theorem compile_quote (text : List Char) :
    compile (quote text) = .ok ⟨textPlan text, .all, 0⟩ := by
  obtain ⟨expr, hAssemble, hExpr⟩ := assemble_quote text
  have hCount : groupCount (Token.scan (quote text)) = 0 := by
    rw [groupCount, scan_quote]
    exact foldl_openedAfter_literals text 0
  rcases hExpr with rfl | rfl
  · rw [compile_of_assemble hAssemble rfl hCount, ofExpr_text]
  · rw [compile_of_assemble hAssemble rfl hCount, ofExpr_seq_text]

/-- So does a quoted text between the anchors of a line. -/
theorem compile_quotedLine (text : List Char) :
    compile ('^' :: quote text ++ ['$']) = .ok ⟨linePlan text, .all, 0⟩ := by
  have hCount : groupCount (Token.scan ('^' :: quote text ++ ['$'])) = 0 := by
    rw [groupCount, scan_quotedLine, List.cons_append, List.foldl_cons, List.foldl_append,
      foldl_openedAfter_literals]
    rfl
  have hReferences : (Expr.seq (.anchor .lineStart :: textItems text ++
      [.anchor .lineEnd])).references = [] := by
    cases text with
    | nil => rfl
    | cons c rest => rfl
  rw [compile_of_assemble (assemble_quotedLine text) hReferences hCount, ofExpr_line]

/-! ## Runs -/

/-- The place after a text. -/
def Cursor.past (cursor : Cursor) (text : List Char) : Cursor :=
  { cursor with
    before := text.reverse ++ cursor.before
    after := cursor.after.drop text.length
    offset := cursor.offset + byteLength text }

theorem stepAll?_text (text : List Char) (cursor : Cursor) :
    cursor.stepAll? (text.map fun c d => c == d) =
      if text <+: cursor.after then some (cursor.past text) else none := by
  induction text generalizing cursor with
  | nil => simp [Cursor.stepAll?, Cursor.past]
  | cons c rest ih =>
    obtain ⟨before, after, offset, groups, entrances, entered⟩ := cursor
    rw [List.map_cons, Cursor.stepAll?, Cursor.step?]
    cases after with
    | nil => simp
    | cons d after =>
      by_cases hSame : c = d
      · subst hSame
        simp [ih, Cursor.past, Nat.add_assoc]
      · simp [hSame]

/-- The plan of a text goes on behind the text if that comes next. -/
theorem run_textPlan (text : List Char) (scene : Scene) (next : Continuation) {cursor : Cursor}
    (h : cursor.offset + byteLength cursor.after ≤ scene.limit) :
    (textPlan text).run scene next cursor =
      if text <+: cursor.after then next (cursor.past text) else .error cursor.entrances := by
  cases text with
  | nil => simp [textPlan, Plan.run, Cursor.past]
  | cons c rest =>
    show Matcher.onward (scene.stepText? (c :: rest) cursor) next cursor = _
    rw [Scene.stepText?, stepAll?_text]
    by_cases hNext : c :: rest <+: cursor.after
    · rw [if_pos hNext, if_pos hNext]
      have hLength : byteLength (c :: rest) ≤ byteLength cursor.after := by
        obtain ⟨others, hAfter⟩ := hNext
        rw [← hAfter, byteLength_append]
        exact Nat.le_add_right _ _
      have hLimit : (cursor.past (c :: rest)).offset ≤ scene.limit := by
        show cursor.offset + byteLength (c :: rest) ≤ scene.limit
        omega
      rw [Option.filter_some_pos (by simpa using hLimit)]
      rfl
    · rw [if_neg hNext, if_neg hNext]
      rfl

/-- The plan of a text between anchors is that of the text where the anchors hold. -/
theorem run_linePlan (text : List Char) (scene : Scene) (next : Continuation) (cursor : Cursor) :
    (linePlan text).run scene next cursor =
      if Anchor.lineStart.holds scene cursor = true then
        (textPlan text).run scene
          (fun place =>
            if Anchor.lineEnd.holds scene place = true then next place else Matcher.stuck place)
          cursor
      else Matcher.stuck cursor := by
  cases text with
  | nil => rfl
  | cons c rest => rfl

variable {text : List Char} {scene : Scene} {place : Place}

/-- A text matches where it comes next. -/
theorem findAt_text (h : place.offset + byteLength place.after ≤ scene.limit) :
    Program.findAt ⟨textPlan text, .all, 0⟩ scene place =
      if text <+: place.after then some ⟨⟨place.offset, place.offset + byteLength text⟩, []⟩
      else none := by
  unfold Program.findAt
  dsimp only
  rw [run_textPlan]
  · by_cases hNext : text <+: place.after
    · rw [if_pos hNext, if_pos hNext]
      rfl
    · rw [if_neg hNext, if_neg hNext]
  · exact h

theorem holds_lineStart_iff {cursor : Cursor} (h : '\n' ∉ cursor.before) :
    Anchor.lineStart.holds scene cursor = true ↔ cursor.before = [] := by
  unfold Anchor.holds
  cases hBefore : cursor.before with
  | nil => simp
  | cons c rest =>
    rw [hBefore] at h
    have hFirst : c ≠ '\n' := fun hSame => h (hSame ▸ List.mem_cons_self)
    simp [hFirst]

theorem holds_lineEnd_iff {cursor : Cursor} (h : '\n' ∉ cursor.after) :
    Anchor.lineEnd.holds scene cursor = true ↔ cursor.after = [] := by
  unfold Anchor.holds
  cases hAfter : cursor.after with
  | nil => simp
  | cons c rest =>
    rw [hAfter] at h
    have hFirst : c ≠ '\n' := fun hSame => h (hSame ▸ List.mem_cons_self)
    simp [hFirst]

/-- Without line feeds around, a text between anchors matches at the start of the text, if it is all
that comes next. -/
theorem isSome_findAt_line (h : place.offset + byteLength place.after ≤ scene.limit)
    (hBefore : '\n' ∉ place.before) (hAfter : '\n' ∉ place.after) :
    (Program.findAt ⟨linePlan text, .all, 0⟩ scene place).isSome = true ↔
      place.before = [] ∧ place.after = text := by
  unfold Program.findAt
  dsimp only
  rw [run_linePlan]
  by_cases hStart : place.before = []
  · rw [if_pos ((holds_lineStart_iff hBefore).2 hStart), run_textPlan]
    · by_cases hNext : text <+: place.after
      · obtain ⟨rest, hRest⟩ := hNext
        have hPast : place.after.drop text.length = rest := by
          rw [← hRest, List.drop_left]
        have hFeed : '\n' ∉ place.after.drop text.length := by
          rw [hPast]
          exact fun hMem => hAfter (hRest ▸ List.mem_append_right text hMem)
        rw [if_pos ⟨rest, hRest⟩]
        by_cases hEnd : rest = []
        · rw [if_pos ((holds_lineEnd_iff hFeed).2 (hPast.trans hEnd))]
          simp [hStart, ← hRest, hEnd]
        · rw [if_neg fun hHolds => hEnd (hPast.symm.trans ((holds_lineEnd_iff hFeed).1 hHolds))]
          simp [Matcher.stuck, ← hRest, hEnd]
      · rw [if_neg hNext]
        have hOther : place.after ≠ text := fun hSame => hNext (hSame ▸ List.prefix_refl _)
        simp [hOther]
    · exact h
  · rw [if_neg fun hHolds => hStart ((holds_lineStart_iff hBefore).1 hHolds)]
    simp [Matcher.stuck, hStart]

/-! ## Places -/

/-- The first place from one on where something is given is the one with nothing given before it. -/
theorem Place.exists_of_findSome?_onward {α : Type} {give : Place → Option α} {value : α}
    {before after : List Char} {offset : Nat}
    (h : (onward before after offset).findSome? give = some value) :
    ∃ passed rest, passed ++ rest = after ∧
      give ⟨passed.reverse ++ before, rest, offset + byteLength passed⟩ = some value ∧
      ∀ earlier later, earlier ++ later = after → byteLength earlier < byteLength passed →
        give ⟨earlier.reverse ++ before, later, offset + byteLength earlier⟩ = none := by
  induction after generalizing before offset with
  | nil =>
    rw [onward, List.findSome?_singleton] at h
    exact ⟨[], [], rfl, h, fun _ _ _ hLess => absurd hLess (Nat.not_lt_zero _)⟩
  | cons c after ih =>
    rw [onward, List.findSome?_cons] at h
    cases hHere : give ⟨before, c :: after, offset⟩ with
    | some found =>
      rw [hHere] at h
      refine ⟨[], c :: after, rfl, hHere.trans h, ?_⟩
      exact fun _ _ _ hLess => absurd hLess (Nat.not_lt_zero _)
    | none =>
      rw [hHere] at h
      obtain ⟨passed, rest, rfl, hGive, hFirst⟩ := ih h
      refine ⟨c :: passed, rest, rfl, ?_, ?_⟩
      · rw [List.reverse_cons, List.append_assoc, byteLength_cons, ← Nat.add_assoc]
        exact hGive
      · intro earlier later hSplit hLess
        cases earlier with
        | nil =>
          obtain rfl : later = c :: (passed ++ rest) := hSplit
          exact hHere
        | cons d earlier =>
          obtain ⟨rfl, hRest⟩ := List.cons.inj hSplit
          rw [byteLength_cons, byteLength_cons] at hLess
          rw [List.reverse_cons, List.append_assoc, byteLength_cons, ← Nat.add_assoc]
          exact hFirst earlier later hRest (by omega)

/-! ## Searches -/

/-- All places are tried. -/
theorem find_of_reach_all {program : Program} (hReach : program.reach = .all)
    (before after : List Char) :
    program.find before after =
      (Place.onward before.reverse after (byteLength before)).findSome?
        (program.findAt ⟨before ++ after, byteLength before, byteLength (before ++ after)⟩) := by
  unfold Program.find
  dsimp only
  rw [hReach]
  cases Place.onward before.reverse after (byteLength before) with
  | nil => rfl
  | cons place places => rfl

section FirstOccurrence

variable {before after : List Char}

/-- What the program of a text gives behind some more of the text that it is searched for in. -/
theorem findAt_behind (text : List Char) {passed rest : List Char}
    (hSplit : passed ++ rest = after) :
    Program.findAt ⟨textPlan text, .all, 0⟩
        ⟨before ++ after, byteLength before, byteLength (before ++ after)⟩
        ⟨passed.reverse ++ before.reverse, rest, byteLength before + byteLength passed⟩ =
      if text <+: rest then
        some ⟨⟨byteLength before + byteLength passed,
          byteLength before + byteLength passed + byteLength text⟩, []⟩
      else none := by
  apply findAt_text
  show byteLength before + byteLength passed + byteLength rest ≤ byteLength (before ++ after)
  rw [← hSplit, byteLength_append, byteLength_append]
  omega

/-- Nothing is given at any place only if the text does not occur. -/
theorem not_occursAt_of_findSome?_eq_none {text : List Char}
    (h : (Place.onward before.reverse after (byteLength before)).findSome?
      (Program.findAt ⟨textPlan text, .all, 0⟩
        ⟨before ++ after, byteLength before, byteLength (before ++ after)⟩) = none) :
    ¬ ∃ place, byteLength before ≤ place ∧ OccursAt (before ++ after) text place := by
  rintro ⟨place, hLe, hOccurs⟩
  obtain ⟨passed, rest, hSplit, hNext, -⟩ := (occursAt_append_iff hLe).1 hOccurs
  have hNone := List.findSome?_eq_none_iff.1 h
    ⟨passed.reverse ++ before.reverse, rest, byteLength before + byteLength passed⟩
    (Place.mem_onward_iff.2 ⟨passed, hSplit.symm, rfl, rfl⟩)
  rw [findAt_behind text hSplit, if_pos hNext] at hNone
  contradiction

/-- The program of a text finds its first occurrence. -/
theorem isFirst_find_text (text before after : List Char) :
    (matchOf (Program.find ⟨textPlan text, .all, 0⟩ before after)).IsFirst
      (before ++ after) text (byteLength before) := by
  rw [find_of_reach_all rfl]
  cases hFound : (Place.onward before.reverse after (byteLength before)).findSome?
      (Program.findAt ⟨textPlan text, .all, 0⟩
        ⟨before ++ after, byteLength before, byteLength (before ++ after)⟩) with
  | none =>
    have hNowhere := not_occursAt_of_findSome?_eq_none hFound
    exact ⟨⟨nofun, fun hThere => absurd hThere hNowhere⟩, nofun, nofun, nofun⟩
  | some hit =>
    obtain ⟨passed, rest, hSplit, hGive, hFirst⟩ := Place.exists_of_findSome?_onward hFound
    rw [findAt_behind text hSplit] at hGive
    split at hGive
    case isFalse => contradiction
    case isTrue hNext =>
      obtain rfl := Option.some.inj hGive
      have hLe : byteLength before ≤ byteLength before + byteLength passed := Nat.le_add_right _ _
      have hOccurs : OccursAt (before ++ after) text (byteLength before + byteLength passed) :=
        (occursAt_append_iff hLe).2 ⟨passed, rest, hSplit, hNext, rfl⟩
      refine ⟨⟨fun _ => ⟨_, hLe, hOccurs⟩, fun _ => rfl⟩, ?_, ?_, ?_⟩
      · intro span hSpan
        obtain rfl := Option.some.inj hSpan
        rfl
      · intro span hSpan
        obtain rfl := Option.some.inj hSpan
        exact ⟨hLe, hOccurs⟩
      · intro span hSpan place hFrom hThere
        obtain rfl := Option.some.inj hSpan
        obtain ⟨earlier, later, hCut, hComes, rfl⟩ := (occursAt_append_iff hFrom).1 hThere
        apply Nat.add_le_add_left
        apply Nat.le_of_not_lt
        intro hLess
        have hNone := hFirst earlier later hCut hLess
        rw [findAt_behind text hCut, if_pos hComes] at hNone
        contradiction

end FirstOccurrence

/-- The program of a text between anchors finds something in a text without line feeds if that is
the same. -/
theorem isSome_find_line_iff {text line : List Char} (hLine : '\n' ∉ line) :
    (Program.find ⟨linePlan text, .all, 0⟩ [] line).isSome = true ↔ line = text := by
  have hAt (place : Place) (hPlace : place ∈ Place.onward [] line 0) :
      (Program.findAt ⟨linePlan text, .all, 0⟩ ⟨line, 0, byteLength line⟩ place).isSome = true ↔
        place.before = [] ∧ place.after = text := by
    obtain ⟨passed, hSplit, hBefore, hOffset⟩ := Place.mem_onward_iff.1 hPlace
    rw [List.append_nil] at hBefore
    have hNone : '\n' ∉ passed ∧ '\n' ∉ place.after := by
      rw [hSplit, List.mem_append, not_or] at hLine
      exact hLine
    apply isSome_findAt_line
    · show place.offset + byteLength place.after ≤ byteLength line
      rw [hSplit, hOffset, byteLength_append]
      omega
    · rw [hBefore, List.mem_reverse]
      exact hNone.1
    · exact hNone.2
  have hFind : Program.find ⟨linePlan text, .all, 0⟩ [] line =
      (Place.onward [] line 0).findSome?
        (Program.findAt ⟨linePlan text, .all, 0⟩ ⟨line, 0, byteLength line⟩) :=
    find_of_reach_all rfl [] line
  rw [hFind, List.findSome?_isSome_iff]
  constructor
  · rintro ⟨place, hPlace, hGive⟩
    obtain ⟨hBefore, hAfter⟩ := (hAt place hPlace).1 hGive
    obtain ⟨passed, hSplit, hPassed, -⟩ := Place.mem_onward_iff.1 hPlace
    obtain rfl : passed = [] := by simpa [hBefore] using hPassed
    exact hSplit.trans hAfter
  · rintro rfl
    have hStart : (⟨[], line, 0⟩ : Place) ∈ Place.onward [] line 0 :=
      Place.mem_onward_iff.2 ⟨[], rfl, rfl, rfl⟩
    exact ⟨_, hStart, (hAt _ hStart).2 ⟨rfl, rfl⟩⟩

/-- What compiles to a program is found by that program. -/
theorem compile_standard {source : List Char} {program : Program}
    (h : compile source = .ok program) :
    Dialect.standard.compile (String.ofList source) = .ok program.find := by
  unfold Dialect.standard
  dsimp only
  rw [String.toList_ofList, h]

/-- The standard dialect reads literally. -/
theorem readsLiterally_standard : Dialect.standard.ReadsLiterally := by
  constructor
  · intro pattern hQuoted
    obtain ⟨text, rfl⟩ := mem_range_quote_iff.2 hQuoted
    refine ⟨_, compile_standard (compile_quote text), fun before after => ?_⟩
    rw [readLiterally_quote]
    exact isFirst_find_text text before after
  · intro pattern hQuoted
    obtain ⟨text, rfl⟩ := mem_range_quote_iff.2 hQuoted
    refine ⟨_, compile_standard (compile_quotedLine text), fun line hLine => ?_⟩
    rw [readLiterally_quote]
    exact isSome_find_line_iff hLine

end Pattern

end GrammarSearch
