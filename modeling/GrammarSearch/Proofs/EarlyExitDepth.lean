import GrammarSearch.Proofs.EarlyExit
import GrammarSearch.Proofs.MemoFreeSearch

/-!
# What stopping early can cost

A search that stops early leaves out siblings, so without a memo it answers wherever an exhaustive
search answers, with the same depth.  With a memo the siblings left out are missing there: an
exhaustive search may have remembered the answer of a group near the top that both meet again deeper
down, below an injection, where the depth no longer suffices to work it out.  This is the only way
in which stopping early fails where an exhaustive search does not, and the only failure is that of
the depth.

## Main results

* `plain_extends_exhaustive`: without a memo, stopping early answers wherever an exhaustive search
  does.
* `early_exit_answers_or_exceeds_depth`: with one, it answers the same or the depth does not
  suffice, neither for it nor for an exhaustive search without a memo.
* `early_exit_exceeds_depth`: the second case exists.
-/

namespace GrammarSearch.Engine

variable {σ τ : Type} {engine : Engine σ} {exhaustive : Engine τ}
variable {weight : String → String → Weight} {query : Query} {priority : Priority}

/-! ## Without a memo -/

section

variable {fast slow : Visit (Except Failure)} {best b : Outcome}
variable (hTree : exhaustive.tree = engine.tree) (hDialect : exhaustive.dialect = engine.dialect)
variable (hWide : Extends fast slow)

include hTree

include hDialect in
/-- What a child contributes depends on the tree, the dialect and on how groups are visited only. -/
theorem candidate_congr {m : Type → Type} [Monad m] [MonadExceptOf Failure m] (visit : Visit m)
    (child : NodeId) :
    exhaustive.candidate query visit priority child =
      engine.candidate query visit priority child := by
  simp only [candidate, hTree, hDialect]

/-- What injections contribute depends on the tree and on how rules are visited only. -/
theorem bestInjection_congr (visit : Visit (Except Failure)) (injections : List Injection) :
    exhaustive.bestInjection query (weighBy weight) visit best injections =
      engine.bestInjection query (weighBy weight) visit best injections := by
  induction injections generalizing best with
  | nil => rfl
  | cons injection later ih => simp only [bestInjection, hTree, ih]

include hDialect hWide

/-- Where all children can be searched, they can be searched up to where the search settles. -/
theorem bestChild_of_exhaustive (hExit : exhaustive.options.earlyExit = false)
    {children : List NodeId}
    (h : exhaustive.bestChild query slow priority best children = .ok b) :
    ∃ a, engine.bestChild query fast priority best children = .ok a := by
  induction children generalizing best with
  | nil => exact ⟨best, rfl⟩
  | cons child later ih =>
    obtain ⟨next, hNext, hRest⟩ := bestChild_cons_eq_ok_iff.1 h
    rw [candidate_congr hTree hDialect] at hNext
    have hFast : engine.candidate query fast priority child = .ok next :=
      candidate_of_extends hWide hNext
    rw [settles_of_exhaustive hExit, hTree] at hRest
    have hLater : exhaustive.bestChild query slow priority (.better engine.tree best next) later =
        .ok b := by
      simpa using hRest
    cases hSettles : engine.settles query priority (.better engine.tree best next) later with
    | true => exact ⟨_, bestChild_cons_eq_ok_iff.2 ⟨next, hFast, Or.inl ⟨hSettles, rfl⟩⟩⟩
    | false =>
      obtain ⟨a, ha⟩ := ih hLater
      exact ⟨a, bestChild_cons_eq_ok_iff.2 ⟨next, hFast, Or.inr ⟨hSettles, ha⟩⟩⟩

theorem explore_of_exhaustive (hExit : exhaustive.options.earlyExit = false) {node : NodeId}
    (h : exhaustive.explore query (weighBy weight) slow node priority = .ok b) :
    ∃ a, engine.explore query (weighBy weight) fast node priority = .ok a := by
  obtain ⟨rule, best, injected, hRule, hBest, hInjected, -⟩ := explore_eq_ok_iff.1 h
  rw [hTree] at hRule
  rw [bestInjection_congr hTree] at hInjected
  obtain ⟨a, ha⟩ := bestChild_of_exhaustive hTree hDialect hWide hExit hBest
  refine ⟨.better engine.tree a injected, explore_eq_ok_iff.2 ?_⟩
  exact ⟨rule, a, injected, hRule, ha, bestInjection_of_extends hWide hInjected, rfl⟩

end

section

variable (hBuilt : engine.tree.Built) (hTree : exhaustive.tree = engine.tree)
variable (hDialect : exhaustive.dialect = engine.dialect)
variable (hExit : exhaustive.options.earlyExit = false)

include hBuilt hTree hDialect hExit

/-- Without a memo, a search that stops early gives every answer of an exhaustive one. -/
theorem plain_extends_exhaustive (budget : Nat) :
    Extends (engine.plain weight query budget) (exhaustive.plain weight query budget) := by
  induction budget with
  | zero =>
    intro node priority b hb
    simp [plain] at hb
  | succ budget ih =>
    intro node priority b hb
    obtain ⟨a, ha⟩ := explore_of_exhaustive hTree hDialect ih hExit hb
    have hSame : a = b :=
      plain_agree hTree hDialect hBuilt hExit (budget + 1) node priority a b ha hb
    rw [← hSame]
    exact ha

/-! ## With a memo -/

/-- Where an exhaustive search answers, one that stops early gives the same answer, or fails because
the depth does not suffice.  Then the depth does not suffice for an exhaustive search without a memo
either, so the exhaustive search owes its answer to what it remembered. -/
theorem early_exit_answers_or_exceeds_depth
    (hDepth : exhaustive.options.maxDepth = engine.options.maxDepth)
    (hAnswers : engine.weigher.Answers weight) (hOthers : exhaustive.weigher.Answers weight)
    (supply : LineSupply) (texts : List String) {session : Session σ} {other : Session τ}
    (hSession : engine.Reachable (supply.lines texts).1 session)
    (hOther : exhaustive.Reachable (supply.lines texts).1 other)
    (hLine : query.line ∈ (supply.lines texts).1) (token : CancelToken) (node : NodeId)
    (priority : Priority)
    (hToken : ((engine.first query node priority).run.run session).2.cancelled.holds query.token =
      false)
    {b : Outcome}
    (hb : ((exhaustive.first { query with token } node priority).run.run other).1 = .ok b) :
    ((engine.first query node priority).run.run session).1 = .ok b ∨
      (∃ deep, ((engine.first query node priority).run.run session).1 =
        .error (.recursionLimit deep engine.options.maxDepth)) ∧
      ¬ Conclusive
        (exhaustive.plain weight query (exhaustive.options.maxDepth + 1) node priority) := by
  have hSameLine : ({ query with token } : Query).line ∈ (supply.lines texts).1 := hLine
  have hSlow : exhaustive.Yields weight query node priority b :=
    (hOther.yields_of_first hOthers hSameLine hb).token query.token
  by_cases hConclusive :
      Conclusive (exhaustive.plain weight query (exhaustive.options.maxDepth + 1) node priority)
  · -- The depth suffices for the exhaustive search, so it suffices for the other one.
    left
    have hPlain :
        engine.plain weight query (engine.options.maxDepth + 1) node priority = .ok b := by
      rw [← hDepth]
      exact plain_extends_exhaustive hBuilt hTree hDialect hExit _ node priority b
        (hSlow.eq_of_conclusive hConclusive)
    rw [← hPlain]
    refine first_eq_plain_of_conclusive hAnswers supply texts hSession hLine node priority hToken ?_
    rw [hPlain]
    exact .ok b
  · -- With enough depth the plain search that stops early has the answer.
    obtain ⟨budget, hBudget⟩ := hSlow
    have hHigh : engine.plain weight query (max (engine.options.maxDepth + 1) budget) node
        priority = .ok b :=
      plain_extends_exhaustive hBuilt hTree hDialect hExit _ node priority b
        (plain_of_le (Nat.le_max_right _ budget) hBudget)
    obtain ⟨-, -, hGives⟩ := tracks_visit hAnswers hLine
      (Nat.le_max_left (engine.options.maxDepth + 1) budget) node priority session
      (hSession.plainAnswers hAnswers)
    rw [hHigh] at hGives
    rcases hGives hToken (.ok b) with hSame | ⟨failure, ⟨-, deep, rfl⟩, hFailure⟩
    · exact Or.inl hSame
    · exact Or.inr ⟨⟨deep, hFailure⟩, hConclusive⟩

end

/-- The rule 4 tries `a` and then the group 2, which it also reaches through an injection, one rule
deeper.  The depth suffices for the group as a child, but not below the injection. -/
def deepEngine (earlyExit : Bool) : Engine Unit where
  tree := .ofRules
    #[{ matchPattern := some ⟨"a"⟩ }, {}, { children := [⟨1⟩] }, { children := [⟨2⟩] },
      { children := [⟨0⟩, ⟨2⟩], injections := [⟨"comment", ⟨3⟩⟩] }] []
  weigher := .selectors
  options := { maxDepth := 2, earlyExit }

/-- The match of `a` by the rule 0. -/
def nearMatch : Outcome :=
  ⟨⟨0⟩, ⟨[⟨0, 1⟩]⟩, .normal, some ⟨0, "ab"⟩⟩

/-- A new session that stops early fails where a new one that does not stop early answers, although
nothing is cancelled. -/
theorem early_exit_exceeds_depth :
    (((deepEngine true).first (noteQuery 0 0 0) ⟨4⟩ .normal).run.run
      (deepEngine true).newSession).1 = .error (.recursionLimit ⟨1⟩ 2) ∧
    (((deepEngine true).first (noteQuery 0 0 0) ⟨4⟩ .normal).run.run
      (deepEngine true).newSession).2.cancelled.holds ⟨0⟩ = false ∧
    (((deepEngine false).first (noteQuery 0 0 0) ⟨4⟩ .normal).run.run
      (deepEngine false).newSession).1 = .ok nearMatch :=
  ⟨rfl, rfl, rfl⟩

/-- The group is answered from the memo only where the search is exhaustive. -/
theorem exhaustive_answer_owed_to_memo :
    (deepEngine true).tree.Built ∧ (deepEngine true).weigher.Answers Selector.weightOf ∧
    (((deepEngine false).first (noteQuery 0 0 0) ⟨4⟩ .normal).run.run
      (deepEngine false).newSession).1 = .ok nearMatch ∧
    ¬ Conclusive ((deepEngine false).plain Selector.weightOf (noteQuery 0 0 0) 3 ⟨4⟩ .normal) := by
  have hBuilt : (deepEngine true).tree.Built := Tree.built_ofRules _ _
  have hTree : (deepEngine false).tree = (deepEngine true).tree := rfl
  have hExit : (deepEngine false).options.earlyExit = false := rfl
  have hDepth : (deepEngine false).options.maxDepth = (deepEngine true).options.maxDepth := rfl
  have hAnswers (earlyExit : Bool) :
      (deepEngine earlyExit).weigher.Answers Selector.weightOf := Weigher.answers_ofFunction _
  have hLine : (noteQuery 0 0 0).line ∈ (LineSupply.lines ⟨0⟩ ["ab"]).1 := by decide
  have hToken : (((deepEngine true).first (noteQuery 0 0 0) ⟨4⟩ .normal).run.run
      (deepEngine true).newSession).2.cancelled.holds (noteQuery 0 0 0).token = false := rfl
  have hFailure : (((deepEngine true).first (noteQuery 0 0 0) ⟨4⟩ .normal).run.run
      (deepEngine true).newSession).1 = .error (.recursionLimit ⟨1⟩ 2) := rfl
  have hAnswer : (((deepEngine false).first (noteQuery 0 0 0) ⟨4⟩ .normal).run.run
      (deepEngine false).newSession).1 = .ok nearMatch := rfl
  refine ⟨hBuilt, hAnswers true, hAnswer, ?_⟩
  rcases early_exit_answers_or_exceeds_depth hBuilt hTree rfl hExit hDepth (hAnswers true)
    (hAnswers false) ⟨0⟩ ["ab"] .new .new hLine ⟨0⟩ ⟨4⟩ .normal hToken hAnswer with
    hSame | ⟨-, hDeep⟩
  · rw [hFailure] at hSame
    exact nomatch hSame
  · exact hDeep

end GrammarSearch.Engine
