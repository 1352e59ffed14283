import GrammarSearch.Proofs.MemoFreeSearch
import GrammarSearch.Proofs.SessionMemo

/-!
# End patterns

The shelf of end patterns is shared by all rules and outcomes of a session and is known by the
resolved text alone.  `Engine.closingAfresh` says what a look for the end of a region gives without
any shelf.  The invariant `PatternShelf` says that what is on the shelf is the pattern of the text
it is under; nothing but such a look and clearing changes the shelf, so it holds in every session
that a host can reach, and there the two agree.

## Main results

* `run_closing`: what a look for the end of a region gives and does to the session.
* `Reachable.patternShelf`: a host never reaches a session whose shelf answers with another pattern.
* `closing_ignores_history`: the result of a look does not depend on what was done before.
-/

namespace GrammarSearch.Engine

variable {σ : Type}

/-! ## Without a shelf -/

/-- The match of the end pattern of the rule that an outcome opened, with the pattern compiled for
this one search. -/
def closingAfresh (engine : Engine σ) (opened : Outcome) (line : Line) (offset : Nat) :
    Except Failure Match :=
  match engine.tree.rule? opened.rule with
  | none => .error (.unknownNode opened.rule)
  | some rule =>
    match rule.endSource with
    | none => .ok .missing
    | some source =>
      engine.dialect.search ⟨Pattern.resolve source opened.source opened.hit⟩ line offset

/-! ## The shelf -/

/-- Under each text on the shelf is the pattern of that text, and there are at most `max 1 capacity`
of them. -/
structure PatternShelf (capacity : Nat) (shelf : Shelf String Pattern) : Prop where
  capacity_eq : shelf.capacity = capacity
  holds : shelf.Holds fun source pattern => pattern = ⟨source⟩
  size_le : shelf.size ≤ max 1 capacity

variable {capacity : Nat} {shelf : Shelf String Pattern}

namespace PatternShelf

theorem empty (capacity : Nat) : PatternShelf capacity ({ capacity } : Shelf String Pattern) := by
  refine ⟨rfl, ?_, Nat.zero_le _⟩
  intro entry hEntry
  contradiction

theorem clear (h : PatternShelf capacity shelf) : PatternShelf capacity shelf.clear := by
  rw [← h.capacity_eq]
  exact empty shelf.capacity

theorem put (h : PatternShelf capacity shelf) (source : String) :
    PatternShelf capacity (shelf.put source ⟨source⟩) := by
  refine ⟨h.capacity_eq, h.holds.put rfl, ?_⟩
  have hSize := shelf.size_put_le source ⟨source⟩
  rw [h.capacity_eq] at hSize
  exact hSize

end PatternShelf

/-- The shelf after a look for the pattern of a text. -/
def shelfAfter (shelf : Shelf String Pattern) (source : String) : Shelf String Pattern :=
  match shelf.find? source with
  | some _ => shelf
  | none => shelf.put source ⟨source⟩

theorem PatternShelf.after (h : PatternShelf capacity shelf) (source : String) :
    PatternShelf capacity (shelfAfter shelf source) := by
  unfold shelfAfter
  split
  · exact h
  · exact h.put source

/-- A text's own pattern is found or made. -/
theorem run_endPattern {session : Session σ} (h : PatternShelf capacity session.endPatterns)
    (source : String) :
    (endPattern source : Search σ Pattern).run.run session =
      (.ok ⟨source⟩,
        { session with endPatterns := shelfAfter session.endPatterns source }) := by
  have hGet : (get : Search σ (Session σ)).run.run session = (.ok session, session) := rfl
  unfold endPattern shelfAfter
  rw [Search.run_bind, hGet]
  cases hFind : session.endPatterns.find? source with
  | some pattern =>
    obtain rfl : pattern = ⟨source⟩ := h.holds.of_find? hFind
    simp only [hFind]
    rfl
  | none =>
    simp only [hFind]
    rfl

/-! ## A look for the end of a region -/

/-- The shelf after a look for the end of the region that an outcome opened. -/
def shelfAfterClosing (engine : Engine σ) (opened : Outcome) (shelf : Shelf String Pattern) :
    Shelf String Pattern :=
  match (engine.tree.rule? opened.rule).bind Rule.endSource with
  | some source => shelfAfter shelf (Pattern.resolve source opened.source opened.hit)
  | none => shelf

/-- A look for the end of a region gives what a freshly compiled pattern gives, and it touches the
end patterns only. -/
theorem run_closing {engine : Engine σ} {session : Session σ}
    (h : PatternShelf capacity session.endPatterns) (opened : Outcome) (line : Line)
    (offset : Nat) :
    (engine.closing opened line offset).run.run session =
      (engine.closingAfresh opened line offset,
        { session with
          endPatterns := engine.shelfAfterClosing opened session.endPatterns }) := by
  unfold closing closingAfresh shelfAfterClosing
  cases hRule : engine.tree.rule? opened.rule with
  | none => rfl
  | some rule =>
    cases hEnd : rule.endSource with
    | none =>
      simp only [Option.bind_some, hEnd]
      rfl
    | some source =>
      simp only [Option.bind_some, hEnd]
      rw [Search.run_bind, run_endPattern h]
      rfl

theorem PatternShelf.afterClosing (h : PatternShelf capacity shelf) (engine : Engine σ)
    (opened : Outcome) : PatternShelf capacity (engine.shelfAfterClosing opened shelf) := by
  unfold shelfAfterClosing
  split
  · exact h.after _
  · exact h

/-! ## Histories -/

/-- The search leaves the end patterns as they are, whether it fails or not. -/
def LeavesEndPatterns {α : Type} (search : Search σ α) : Prop :=
  ∀ session, (search.run.run session).2.endPatterns = session.endPatterns

/-- Nothing that a visit does touches the end patterns. -/
theorem compositional_leavesEndPatterns (engine : Engine σ) :
    engine.Compositional fun _ search => LeavesEndPatterns search where
  pure _ := fun _ => rfl
  throw _ := fun _ => rfl
  bind := by
    intro α β search next hSearch hNext session
    have hFirst := hSearch session
    rw [Search.run_bind]
    rcases hRun : search.run.run session with ⟨failure | value, after⟩
    · rw [hRun] at hFirst
      exact hFirst
    · rw [hRun] at hFirst
      exact (hNext value after).trans hFirst
  checkToken token := by
    intro session
    rw [Search.run_checkToken]
  weigh selector scope := by
    intro session
    rw [Search.run_weigh]
  remember := by
    intro key compute hCompute session
    cases hFind : session.memo.find? key with
    | some outcome => rw [Search.run_remember, Memo.fetch_of_find?_eq_some hFind]
    | none =>
      have hAfter := hCompute { session with memo := session.memo.tick }
      rw [Search.run_remember_of_find?_eq_none hFind]
      rcases hRun : compute.run.run { session with memo := session.memo.tick } with
        ⟨failure | outcome, after⟩
      · rw [hRun] at hAfter
        exact hAfter
      · rw [hRun] at hAfter
        exact hAfter

/-- A host never reaches a session whose shelf holds another pattern than that of the text it is
under, or more patterns than the capacity admits. -/
theorem Reachable.patternShelf {engine : Engine σ} {lines : List Line} {session : Session σ}
    (hReachable : engine.Reachable lines session) :
    PatternShelf engine.options.endPatternCacheCapacity session.endPatterns := by
  induction hReachable with
  | new => exact .empty _
  | @first before _ query _ node priority ih =>
    have hSame := (compositional_leavesEndPatterns engine).visit query
      (engine.options.maxDepth + 1) node priority before
    unfold Engine.first
    rw [hSame]
    exact ih
  | closing _ opened line offset ih =>
    rw [run_closing ih]
    exact ih.afterClosing engine opened
  | clear _ ih => exact ih.clear
  | cancel _ _ ih => exact ih

/-- In every session that a host can reach, a look for the end of a region gives what a freshly
compiled pattern gives.  It changes nothing but the end patterns and goes the same way whatever the
memo holds.  There are never more than `max 1 capacity` patterns on the shelf, each under its own
text. -/
theorem closing_ignores_history {engine : Engine σ} {lines : List Line} {session : Session σ}
    (hReachable : engine.Reachable lines session) (opened : Outcome) (line : Line)
    (offset : Nat) :
    let look := (engine.closing opened line offset).run.run
    (look session).1 = engine.closingAfresh opened line offset ∧
    (∃ endPatterns, (look session).2 = { session with endPatterns }) ∧
    (∀ memo, look { session with memo } = ((look session).1, { (look session).2 with memo })) ∧
    session.endPatterns.size ≤ max 1 engine.options.endPatternCacheCapacity ∧
    ∀ entry ∈ session.endPatterns.entries, entry.2.source = entry.1 := by
  intro look
  have hShelf : PatternShelf engine.options.endPatternCacheCapacity session.endPatterns :=
    hReachable.patternShelf
  have hLook (memo : Memo SearchKey Outcome) :
      look { session with memo } = (engine.closingAfresh opened line offset,
        { session with
          memo
          endPatterns := engine.shelfAfterClosing opened session.endPatterns }) := by
    have hSame : PatternShelf engine.options.endPatternCacheCapacity
      { session with memo }.endPatterns := hShelf
    exact run_closing hSame opened line offset
  have hHere := hLook session.memo
  refine ⟨?result, ?changes, ?memo, hShelf.size_le, ?own⟩
  case result => rw [hHere]
  case changes => exact ⟨_, congrArg Prod.snd hHere⟩
  case memo =>
    intro memo
    rw [hLook memo, hHere]
  case own =>
    intro entry hEntry
    rw [hShelf.holds entry hEntry]

/-- A region that ends with the character it began with, and one whose end pattern does not compile;
there is room for one end pattern. -/
def quoteEngine : Engine Unit where
  tree := .ofRules
    #[{ beginPattern := some ⟨"(.)"⟩, endSource := some "\\1" },
      { beginPattern := some ⟨"x"⟩, endSource := some "(" }] []
  weigher := .selectors
  options := { endPatternCacheCapacity := 1 }

/-- A rule opened by the character at an offset of a line. -/
def openedAt (rule : NodeId) (offset : Nat) : Outcome :=
  ⟨rule, ⟨[⟨offset, offset + 1⟩, ⟨offset, offset + 1⟩]⟩, .normal, some ⟨0, "ab.b"⟩⟩

/-- What looks for the ends of three regions leave, the last of which fails. -/
def quoteSession : Session Unit :=
  let look (session : Session Unit) (opened : Outcome) : Session Unit :=
    ((quoteEngine.closing opened ⟨0, "ab.b"⟩ 0).run.run session).2
  look (look (look quoteEngine.newSession (openedAt ⟨0⟩ 1)) (openedAt ⟨0⟩ 2)) (openedAt ⟨1⟩ 0)

set_option maxRecDepth 10000 in
/-- The pattern that failed is the one on the shelf, and the region that `b` began is closed by the
next `b`. -/
theorem closing_after_failure :
    quoteEngine.Reachable [] quoteSession ∧
    quoteSession.endPatterns.entries = [("(", ⟨"("⟩)] ∧
    ((quoteEngine.closing (openedAt ⟨0⟩ 1) ⟨0, "ab.b"⟩ 2).run.run quoteSession).1 =
      .ok ⟨[⟨3, 4⟩]⟩ ∧
    ((quoteEngine.closing (openedAt ⟨2⟩ 1) ⟨0, "ab.b"⟩ 2).run.run quoteSession).1 =
      .error (.unknownNode ⟨2⟩) := by
  have hReachable : quoteEngine.Reachable [] quoteSession :=
    .closing (.closing (.closing .new _ _ _) _ _ _) _ _ _
  obtain ⟨hFound, -, -, -, -⟩ :=
    closing_ignores_history hReachable (openedAt ⟨0⟩ 1) ⟨0, "ab.b"⟩ 2
  obtain ⟨hUnknown, -, -, -, -⟩ :=
    closing_ignores_history hReachable (openedAt ⟨2⟩ 1) ⟨0, "ab.b"⟩ 2
  refine ⟨hReachable, ?_, ?_, ?_⟩
  · rfl
  · exact hFound.trans rfl
  · exact hUnknown.trans rfl

end GrammarSearch.Engine
