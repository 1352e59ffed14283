import GrammarSearch.Proofs.History
import GrammarSearch.Proofs.PlainSearch

/-!
# What is remembered is what would be found

Entries are written while the searches around them are still open, at whatever depth they were
reached, and they are read at other depths, after evictions, clears, failures and cancellations.
None of this shows, because an answer never depends on it: whatever a visit gives is what the plain
search gives for the same rule, priority, line, offset and scope path.

The invariant is `PlainAnswer`: every entry of the memo is a plain answer under its key.
`meets_visit` carries it through one search, by induction on the budget, and `Reachable.memo_holds`
through a history.
-/

namespace GrammarSearch.Engine

variable {σ : Type} {engine : Engine σ} {weight : String → String → Weight} {query : Query}

/-! ## The token plays no part in the plain search -/

theorem bestChild_token (token : CancelToken) (visit : Visit (Except Failure))
    (priority : Priority) (best : Outcome) (children : List NodeId) :
    engine.bestChild { query with token } visit priority best children =
      engine.bestChild query visit priority best children := by
  induction children generalizing best with
  | nil => rfl
  | cons child later ih =>
    have hCandidate : engine.candidate { query with token } visit priority child =
        engine.candidate query visit priority child := rfl
    have hSettles (best : Outcome) : engine.settles { query with token } priority best later =
        engine.settles query priority best later := rfl
    simp only [bestChild, hCandidate, hSettles, ih]

theorem bestInjection_token (token : CancelToken) (weigh : Weigh (Except Failure))
    (visit : Visit (Except Failure)) (best : Outcome) (injections : List Injection) :
    engine.bestInjection { query with token } weigh visit best injections =
      engine.bestInjection query weigh visit best injections := by
  induction injections generalizing best with
  | nil => rfl
  | cons injection later ih => simp only [bestInjection, ih]

theorem plain_token (token : CancelToken) (budget : Nat) :
    engine.plain weight { query with token } budget = engine.plain weight query budget := by
  induction budget with
  | zero => rfl
  | succ budget ih =>
    funext node priority
    simp only [plain, explore, ih, bestChild_token, bestInjection_token]

theorem Yields.token {node : NodeId} {priority : Priority} {outcome : Outcome}
    (h : engine.Yields weight query node priority outcome) (token : CancelToken) :
    engine.Yields weight { query with token } node priority outcome := by
  obtain ⟨budget, hBudget⟩ := h
  refine ⟨budget, ?_⟩
  rw [plain_token]
  exact hBudget

/-! ## The invariant -/

/-- An answer for a key that the plain search gives for a query on one of the lines. -/
def PlainAnswer (engine : Engine σ) (weight : String → String → Weight) (lines : List Line)
    (key : SearchKey) (outcome : Outcome) : Prop :=
  ∃ query : Query, query.line ∈ lines ∧ query.key key.node key.priority = key ∧
    engine.Yields weight query key.node key.priority outcome

/-- Lines are told apart by identity, so a key determines its query up to the token. -/
theorem PlainAnswer.yields {supply : LineSupply} {texts : List String} {node : NodeId}
    {priority : Priority} {outcome : Outcome}
    (h : engine.PlainAnswer weight (supply.lines texts).1 (query.key node priority) outcome)
    (hLine : query.line ∈ (supply.lines texts).1) :
    engine.Yields weight query node priority outcome := by
  obtain ⟨other, hOther, hKey, hYields⟩ := h
  simp only [Query.key, SearchKey.mk.injEq, true_and] at hKey
  obtain ⟨hId, hOffset, hScope⟩ := hKey
  have hSame : other.line = query.line := LineSupply.eq_of_id_eq hOther hLine hId
  have hQuery : query = { other with token := query.token } := by
    rw [hSame, hOffset, hScope]
  rw [hQuery]
  exact hYields.token query.token

/-! ## One search -/

section

variable {keeps : Session σ → Prop} {visit : Visit (Search σ)}

/-- The visits of a search give plain answers and keep an invariant. -/
def VisitsPlainly (engine : Engine σ) (weight : String → String → Weight) (query : Query)
    (keeps : Session σ → Prop) (visit : Visit (Search σ)) : Prop :=
  ∀ node priority,
    Search.Meets keeps (visit node priority) (engine.Yields weight query node priority)

theorem meets_candidate (hVisit : engine.VisitsPlainly weight query keeps visit)
    (priority : Priority) (child : NodeId) :
    Search.Meets keeps (engine.candidate query visit priority child) fun outcome =>
      ∃ budget, engine.candidate query (engine.plain weight query budget) priority child =
        .ok outcome := by
  cases hRule : engine.tree.rule? child with
  | none =>
    rw [candidate_of_unknown hRule]
    exact Search.meets_throw _
  | some rule =>
    rcases rule.kind.cases with ⟨pattern, hPattern⟩ | hClosing | hGroup
    · rw [candidate_of_pattern hRule hPattern]
      refine Search.meets_bind (Search.meets_ofExcept _) ?_
      intro hit hHit
      refine Search.meets_pure ⟨0, candidate_eq_ok_iff.2 ⟨rule, hRule, Or.inl ?_⟩⟩
      exact ⟨pattern, hit, hPattern, hHit, rfl⟩
    · rw [candidate_of_closing hRule hClosing]
      refine Search.meets_pure ⟨0, candidate_eq_ok_iff.2 ⟨rule, hRule, Or.inr (Or.inl ?_)⟩⟩
      exact ⟨hClosing, rfl⟩
    · rw [candidate_of_group hRule hGroup]
      refine (hVisit child priority).mono ?_
      rintro outcome ⟨budget, hBudget⟩
      exact ⟨budget, candidate_eq_ok_iff.2 ⟨rule, hRule, Or.inr (Or.inr ⟨hGroup, hBudget⟩)⟩⟩

theorem meets_bestChild (hVisit : engine.VisitsPlainly weight query keeps visit)
    (priority : Priority) (best : Outcome) (children : List NodeId) :
    Search.Meets keeps (engine.bestChild query visit priority best children) fun outcome =>
      ∃ budget, engine.bestChild query (engine.plain weight query budget) priority best children =
        .ok outcome := by
  induction children generalizing best with
  | nil => exact Search.meets_pure ⟨0, rfl⟩
  | cons child later ih =>
    rw [bestChild]
    refine Search.meets_bind (meets_candidate hVisit priority child) ?_
    rintro next ⟨low, hLow⟩
    dsimp only
    split
    · next hSettles =>
      refine Search.meets_pure ⟨low, bestChild_cons_eq_ok_iff.2 ?_⟩
      exact ⟨next, hLow, Or.inl ⟨hSettles, rfl⟩⟩
    · next hOpen =>
      refine (ih (.better engine.tree best next)).mono ?_
      rintro outcome ⟨high, hHigh⟩
      have hOpen : engine.settles query priority (.better engine.tree best next) later = false := by
        simpa using hOpen
      refine ⟨max low high, bestChild_cons_eq_ok_iff.2 ⟨next, ?_, Or.inr ⟨hOpen, ?_⟩⟩⟩
      · exact candidate_of_extends (plain_extends_of_le (Nat.le_max_left low high)) hLow
      · exact bestChild_of_extends (plain_extends_of_le (Nat.le_max_right low high)) hHigh

variable (hAnswers : engine.weigher.Answers weight)
variable (hKeeps : ∀ (session : Session σ) (weighing : σ) (cancelled : Cancellations),
  keeps session → keeps { session with weighing, cancelled })

include hAnswers hKeeps

theorem meets_bestInjection (hVisit : engine.VisitsPlainly weight query keeps visit)
    (best : Outcome) (injections : List Injection) :
    Search.Meets keeps (engine.bestInjection query engine.weigh visit best injections)
      fun outcome => ∃ budget, engine.bestInjection query (weighBy weight)
        (engine.plain weight query budget) best injections = .ok outcome := by
  induction injections generalizing best with
  | nil => exact Search.meets_pure ⟨0, rfl⟩
  | cons injection later ih =>
    rw [bestInjection]
    refine Search.meets_bind (Search.meets_weigh hAnswers hKeeps injection.selector query.scope) ?_
    rintro found rfl
    split
    · next hApplies =>
      refine Search.meets_bind (hVisit _ _) ?_
      rintro next ⟨low, hLow⟩
      refine (ih (.better engine.tree best next)).mono ?_
      rintro outcome ⟨high, hHigh⟩
      refine ⟨max low high, bestInjection_cons_eq_ok_iff.2 (Or.inl ⟨hApplies, next, ?_, ?_⟩)⟩
      · exact plain_of_le (Nat.le_max_left low high) hLow
      · exact bestInjection_of_extends (plain_extends_of_le (Nat.le_max_right low high)) hHigh
    · next hSkipped =>
      refine (ih best).mono ?_
      rintro outcome ⟨budget, hBudget⟩
      exact ⟨budget, bestInjection_cons_eq_ok_iff.2 (Or.inr ⟨by simpa using hSkipped, hBudget⟩)⟩

theorem meets_explore (hVisit : engine.VisitsPlainly weight query keeps visit) :
    engine.VisitsPlainly weight query keeps (engine.explore query engine.weigh visit) := by
  intro node priority
  unfold explore
  split
  · exact Search.meets_throw _
  · next rule hRule =>
    refine Search.meets_bind (meets_bestChild hVisit priority _ _) ?_
    rintro best ⟨low, hLow⟩
    refine Search.meets_bind (meets_bestInjection hAnswers hKeeps hVisit _ _) ?_
    rintro injected ⟨high, hHigh⟩
    refine Search.meets_pure ⟨max low high + 1, explore_eq_ok_iff.2 ?_⟩
    refine ⟨rule, best, injected, hRule, ?_, ?_, rfl⟩
    · exact bestChild_of_extends (plain_extends_of_le (Nat.le_max_left low high)) hLow
    · exact bestInjection_of_extends (plain_extends_of_le (Nat.le_max_right low high)) hHigh

end

/-- With a memo of plain answers, a visit gives a plain answer and leaves such a memo. -/
theorem meets_visit (hAnswers : engine.weigher.Answers weight) {supply : LineSupply}
    {texts : List String} (hLine : query.line ∈ (supply.lines texts).1) (budget : Nat) :
    engine.VisitsPlainly weight query
      (fun session => session.memo.Holds (engine.PlainAnswer weight (supply.lines texts).1))
      (engine.visit query budget) := by
  induction budget with
  | zero =>
    intro node priority
    exact Search.meets_bind (Search.meets_checkToken query.token) fun _ _ => Search.meets_throw _
  | succ budget ih =>
    intro node priority
    refine Search.meets_bind (Search.meets_checkToken query.token) ?_
    intro _ _
    have hExplore := (meets_explore hAnswers (fun _ _ _ h => h) ih node priority).mono
      fun outcome hYields => (⟨query, hLine, rfl, hYields⟩ : engine.PlainAnswer weight
        (supply.lines texts).1 (query.key node priority) outcome)
    exact (Search.meets_remember hExplore).mono fun outcome hPlain => hPlain.yields hLine

/-! ## Histories -/

section

variable {supply : LineSupply} {texts : List String} {session : Session σ}
variable (hAnswers : engine.weigher.Answers weight)
variable (hReachable : engine.Reachable (supply.lines texts).1 session)

include hAnswers hReachable

/-- Every entry of a memo that a host can reach is a plain answer. -/
theorem Reachable.plainAnswers :
    session.memo.Holds (engine.PlainAnswer weight (supply.lines texts).1) :=
  hReachable.memo_holds fun _ hLine node priority =>
    (meets_visit hAnswers hLine _ node priority).mono fun _ _ => trivial

/-- Every answer of a search in a session that a host can reach is a plain answer. -/
theorem Reachable.yields_of_first (hLine : query.line ∈ (supply.lines texts).1) {node : NodeId}
    {priority : Priority} {answer : Outcome}
    (hAnswer : ((engine.first query node priority).run.run session).1 = .ok answer) :
    engine.Yields weight query node priority answer := by
  have hMemo := hReachable.plainAnswers hAnswers
  exact (meets_visit hAnswers hLine (engine.options.maxDepth + 1) node priority session hMemo).1
    answer hAnswer

end

/-- In every history, each remembered answer is the one that the plain search gives for its key, and
so is each answer of a search. -/
theorem memo_agrees_with_plain_search (hAnswers : engine.weigher.Answers weight)
    (supply : LineSupply) (texts : List String) {session : Session σ}
    (hReachable : engine.Reachable (supply.lines texts).1 session) :
    (∀ entry ∈ session.memo.entries,
      (∃ line ∈ (supply.lines texts).1, line.id = entry.key.line) ∧
      ∀ query : Query, query.line ∈ (supply.lines texts).1 →
        query.key entry.key.node entry.key.priority = entry.key →
        ∀ outcome, engine.Yields weight query entry.key.node entry.key.priority outcome ↔
          outcome = entry.value) ∧
    ∀ query : Query, query.line ∈ (supply.lines texts).1 → ∀ node priority answer,
      ((engine.first query node priority).run.run session).1 = .ok answer →
      ∀ outcome, engine.Yields weight query node priority outcome ↔ outcome = answer := by
  constructor
  · intro entry hEntry
    have hPlain := hReachable.plainAnswers hAnswers entry hEntry
    constructor
    · obtain ⟨query, hLine, hKey, -⟩ := hPlain
      exact ⟨query.line, hLine, congrArg SearchKey.line hKey⟩
    · intro query hLine hKey outcome
      rw [← hKey] at hPlain
      exact (hPlain.yields hLine).iff_eq
  · intro query hLine node priority answer hAnswer outcome
    exact (hReachable.yields_of_first hAnswers hLine hAnswer).iff_eq

/-- A group of an include and a rule, with the include injected into comments as well.  Asking for a
weight cancels the token 1. -/
def noteEngine : Engine Unit where
  tree := .ofRules
    #[{ matchPattern := some ⟨"ab"⟩ }, { matchPattern := some ⟨"b"⟩ }, { children := [⟨1⟩] },
      { children := [⟨2⟩, ⟨0⟩], injections := [⟨"L:comment", ⟨2⟩⟩] }] []
  weigher := Weigher.selectors.cancelling fun _ => [⟨1⟩]

/-- A search of one of two equal lines from an offset, under a token. -/
def noteQuery (line offset token : Nat) : Query :=
  ⟨⟨line, "ab"⟩, offset, "comment", ⟨token⟩⟩

/-- What a search that is cancelled half-way leaves. -/
def noteSession : Session Unit :=
  ((noteEngine.first (noteQuery 0 0 1) ⟨3⟩ .normal).run.run noteEngine.newSession).2

theorem noteEngine_answers : noteEngine.weigher.Answers Selector.weightOf :=
  fun _ _ _ => rfl

theorem noteSession_reachable :
    noteEngine.Reachable (LineSupply.lines ⟨0⟩ ["ab", "ab"]).1 noteSession :=
  .first .new (by decide) ⟨3⟩ .normal

/-- The answer that the cancelled search remembers for the included group. -/
def noteEntry : MemoEntry SearchKey Outcome :=
  ⟨(noteQuery 0 0 1).key ⟨2⟩ .normal, ⟨⟨1⟩, ⟨[⟨1, 2⟩]⟩, .normal, some ⟨0, "ab"⟩⟩, 1⟩

set_option maxRecDepth 10000 in
theorem memo_agrees_after_cancellation :
    noteEngine.weigher.Answers Selector.weightOf ∧
    noteEngine.Reachable (LineSupply.lines ⟨0⟩ ["ab", "ab"]).1 noteSession ∧
    ((noteEngine.first (noteQuery 0 0 1) ⟨3⟩ .normal).run.run noteEngine.newSession).1 =
      .error .cancelled ∧
    noteEntry ∈ noteSession.memo.entries ∧
    (∀ outcome, noteEngine.Yields Selector.weightOf (noteQuery 0 0 1) ⟨2⟩ .normal outcome ↔
      outcome = noteEntry.value) ∧
    ∀ outcome, noteEngine.Yields Selector.weightOf (noteQuery 0 0 0) ⟨3⟩ .normal outcome ↔
      outcome = ⟨⟨0⟩, ⟨[⟨0, 2⟩]⟩, .normal, some ⟨0, "ab"⟩⟩ := by
  have hEntry : noteEntry ∈ noteSession.memo.entries := by
    have hAll : noteSession.memo.entries = [noteEntry] := rfl
    rw [hAll]
    exact List.mem_singleton_self noteEntry
  obtain ⟨hEntries, hFirst⟩ :=
    memo_agrees_with_plain_search noteEngine_answers ⟨0⟩ ["ab", "ab"] noteSession_reachable
  refine ⟨noteEngine_answers, noteSession_reachable, rfl, hEntry, ?_, ?_⟩
  · exact (hEntries noteEntry hEntry).2 (noteQuery 0 0 1) (by decide) rfl
  · exact hFirst (noteQuery 0 0 0) (by decide) ⟨3⟩ .normal _ rfl

end GrammarSearch.Engine
