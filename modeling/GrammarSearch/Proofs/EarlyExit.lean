import GrammarSearch.Proofs.Candidates
import GrammarSearch.Proofs.MemoSoundness

/-!
# Stopping early never shows

A search that stops early leaves out siblings whose candidates cannot beat the best outcome so far,
and an outcome that does not beat the best one is never kept.  So it gives the answer of an
exhaustive search of the same tree, through any nesting: the two are compared visit by visit, with
one budget.

An exhaustive search may fail where one that stops early does not, because it also looks at the
siblings left out.  The theorem is about the case in which both give an answer.
-/

namespace GrammarSearch.Engine

variable {σ τ : Type} {engine : Engine σ} {exhaustive : Engine τ}
variable {weight : String → String → Weight} {query : Query} {priority : Priority}

/-! ## Two engines over one tree -/

/-- What a child contributes depends on the tree, the dialect and the weights only. -/
theorem ofChild_of_tree_eq (hTree : exhaustive.tree = engine.tree)
    (hDialect : exhaustive.dialect = engine.dialect) {child : NodeId} {c : Outcome}
    (h : exhaustive.OfChild weight query priority child c) :
    engine.OfChild weight query priority child c := by
  obtain ⟨tree, weigher, options, dialect⟩ := engine
  obtain ⟨_, others, otherOptions, _⟩ := exhaustive
  cases hTree
  cases hDialect
  exact h

/-- Without early exit a search never settles. -/
theorem settles_of_exhaustive (hExit : exhaustive.options.earlyExit = false) (best : Outcome)
    (later : List NodeId) : exhaustive.settles query priority best later = false := by
  simp [settles, hExit]

/-- Siblings whose outcomes do not beat the best one leave it as it is. -/
theorem bestChild_eq_of_not_beats {visit : Visit (Except Failure)} {best outcome : Outcome}
    {children : List NodeId} (hFound : best.found = true)
    (hLose : ∀ child ∈ children, ∀ next, engine.candidate query visit priority child = .ok next →
      next.beats best = false)
    (h : engine.bestChild query visit priority best children = .ok outcome) : outcome = best := by
  induction children with
  | nil => exact bestChild_nil_eq_ok_iff.1 h
  | cons child later ih =>
    obtain ⟨next, hNext, hRest⟩ := bestChild_cons_eq_ok_iff.1 h
    have hKept : Outcome.better engine.tree best next = best :=
      Outcome.better_of_not_beats hFound (hLose child List.mem_cons_self next hNext)
    rw [hKept] at hRest
    rcases hRest with ⟨-, hOutcome⟩ | ⟨-, hLater⟩
    · exact hOutcome
    · exact ih (fun sibling hMem => hLose sibling (List.mem_cons_of_mem _ hMem)) hLater

/-- Two searches of one list of children find the same best outcome, also where they stop at
different children, as long as neither leaves out what would beat its best outcome. -/
theorem bestChild_agree_of_settles {other : Engine τ} {fast slow : Visit (Except Failure)}
    {a b best : Outcome}
    (hBetter : ∀ old new, Outcome.better other.tree old new = Outcome.better engine.tree old new)
    (hCandidate : ∀ child a b, engine.candidate query fast priority child = .ok a →
      other.candidate query slow priority child = .ok b → a = b)
    (hFast : ∀ best later, engine.settles query priority best later = true →
      ∀ child ∈ later, ∀ next, other.candidate query slow priority child = .ok next →
        next.beats best = false)
    (hSlow : ∀ best later, other.settles query priority best later = true →
      ∀ child ∈ later, ∀ next, engine.candidate query fast priority child = .ok next →
        next.beats best = false)
    {children : List NodeId}
    (ha : engine.bestChild query fast priority best children = .ok a)
    (hb : other.bestChild query slow priority best children = .ok b) : a = b := by
  induction children generalizing best with
  | nil => rw [bestChild_nil_eq_ok_iff.1 ha, bestChild_nil_eq_ok_iff.1 hb]
  | cons child later ih =>
    obtain ⟨next, hNext, hFastRest⟩ := bestChild_cons_eq_ok_iff.1 ha
    obtain ⟨second, hSecond, hSlowRest⟩ := bestChild_cons_eq_ok_iff.1 hb
    obtain rfl : next = second := hCandidate child next second hNext hSecond
    rw [hBetter] at hSlowRest
    rcases hFastRest with ⟨hSettles, rfl⟩ | ⟨-, hFastLater⟩
    · rcases hSlowRest with ⟨-, rfl⟩ | ⟨-, hSlowLater⟩
      · rfl
      · exact (bestChild_eq_of_not_beats (found_of_settles hSettles) (hFast _ _ hSettles)
          hSlowLater).symm
    · rcases hSlowRest with ⟨hSettles, rfl⟩ | ⟨-, hSlowLater⟩
      · exact bestChild_eq_of_not_beats (found_of_settles hSettles) (hSlow _ _ hSettles) hFastLater
      · exact ih hFastLater hSlowLater

/-! ## Visits that agree -/

/-- Two visits never give different answers. -/
def Agree (fast slow : Visit (Except Failure)) : Prop :=
  ∀ node priority a b, fast node priority = .ok a → slow node priority = .ok b → a = b

variable {fast slow : Visit (Except Failure)} {a b best : Outcome}
variable (hTree : exhaustive.tree = engine.tree) (hDialect : exhaustive.dialect = engine.dialect)
variable (hAgree : Agree fast slow)

include hTree hDialect hAgree

theorem candidate_agree {child : NodeId}
    (ha : engine.candidate query fast priority child = .ok a)
    (hb : exhaustive.candidate query slow priority child = .ok b) : a = b := by
  obtain ⟨rule, hRule, -⟩ := candidate_eq_ok_iff.1 ha
  have hSame : exhaustive.tree.rule? child = some rule := by rw [hTree, hRule]
  rcases rule.kind.cases with ⟨pattern, hPattern⟩ | hClosing | hGroup
  · rw [candidate_of_pattern hRule hPattern] at ha
    rw [candidate_of_pattern hSame hPattern, hDialect, ha] at hb
    exact Except.ok.inj hb
  · rw [candidate_of_closing hRule hClosing] at ha
    rw [candidate_of_closing hSame hClosing, ha] at hb
    exact Except.ok.inj hb
  · rw [candidate_of_group hRule hGroup] at ha
    rw [candidate_of_group hSame hGroup] at hb
    exact hAgree child priority a b ha hb

theorem bestChild_agree (hBuilt : engine.tree.Built) (hExit : exhaustive.options.earlyExit = false)
    (hSlow : exhaustive.VisitsGenuinely weight query slow) {children : List NodeId}
    (ha : engine.bestChild query fast priority best children = .ok a)
    (hb : exhaustive.bestChild query slow priority best children = .ok b) : a = b := by
  have hBetter (old new : Outcome) :
      Outcome.better exhaustive.tree old new = Outcome.better engine.tree old new := by rw [hTree]
  refine bestChild_agree_of_settles hBetter (fun _ _ _ => candidate_agree hTree hDialect hAgree)
    ?_ ?_ ha hb
  · intro best later hSettles sibling hMem found hCandidate
    rcases Bool.eq_false_or_eq_true found.found with hHit | hMiss
    · have hOf := ofChild_of_tree_eq hTree hDialect (ofChild_of_candidate hSlow hCandidate hHit)
      exact not_beats_of_settles hBuilt hSettles hMem hOf
    · exact Outcome.not_beats_of_not_found hMiss
  · intro best later hSettles
    rw [settles_of_exhaustive hExit] at hSettles
    contradiction

omit hDialect in
theorem bestInjection_agree {injections : List Injection}
    (ha : engine.bestInjection query (weighBy weight) fast best injections = .ok a)
    (hb : exhaustive.bestInjection query (weighBy weight) slow best injections = .ok b) :
    a = b := by
  induction injections generalizing best with
  | nil => rw [bestInjection_nil_eq_ok_iff.1 ha, bestInjection_nil_eq_ok_iff.1 hb]
  | cons injection later ih =>
    rw [bestInjection_cons_eq_ok_iff] at ha hb
    rw [hTree] at hb
    rcases ha with ⟨hApplies, next, hNext, hFastLater⟩ | ⟨hSkipped, hFastLater⟩
    · rcases hb with ⟨-, other, hOther, hSlowLater⟩ | ⟨hSkipped, -⟩
      · obtain rfl : next = other := hAgree _ _ _ _ hNext hOther
        exact ih hFastLater hSlowLater
      · rw [hApplies] at hSkipped
        contradiction
    · rcases hb with ⟨hApplies, -⟩ | ⟨-, hSlowLater⟩
      · rw [hApplies] at hSkipped
        contradiction
      · exact ih hFastLater hSlowLater

theorem explore_agree (hBuilt : engine.tree.Built) (hExit : exhaustive.options.earlyExit = false)
    (hSlow : exhaustive.VisitsGenuinely weight query slow) :
    Agree (engine.explore query (weighBy weight) fast)
      (exhaustive.explore query (weighBy weight) slow) := by
  intro node priority a b ha hb
  obtain ⟨rule, best, injected, hRule, hBest, hInjected, rfl⟩ := explore_eq_ok_iff.1 ha
  obtain ⟨other, otherBest, otherInjected, hOther, hOtherBest, hOtherInjected, rfl⟩ :=
    explore_eq_ok_iff.1 hb
  obtain rfl : other = rule := by
    rw [hTree, hRule] at hOther
    exact (Option.some.inj hOther).symm
  rw [hTree, bestChild_agree hTree hDialect hAgree hBuilt hExit hSlow hBest hOtherBest,
    bestInjection_agree hTree hAgree hInjected hOtherInjected]

omit hAgree

theorem plain_agree (hBuilt : engine.tree.Built) (hExit : exhaustive.options.earlyExit = false)
    (budget : Nat) :
    Agree (engine.plain weight query budget) (exhaustive.plain weight query budget) := by
  induction budget with
  | zero =>
    intro node priority a b ha
    simp [plain] at ha
  | succ budget ih => exact explore_agree hTree hDialect ih hBuilt hExit (genuine_of_plain budget)

/-- A plain search that stops early agrees with an exhaustive one, whatever their budgets. -/
theorem Yields.agree (hBuilt : engine.tree.Built) (hExit : exhaustive.options.earlyExit = false)
    {node : NodeId} (ha : engine.Yields weight query node priority a)
    (hb : exhaustive.Yields weight query node priority b) : a = b := by
  obtain ⟨low, hLow⟩ := ha
  obtain ⟨high, hHigh⟩ := hb
  exact plain_agree hTree hDialect hBuilt hExit (max low high) node priority a b
    (plain_of_le (Nat.le_max_left low high) hLow) (plain_of_le (Nat.le_max_right low high) hHigh)

omit hTree hDialect

/-! ## Sessions -/

/-- Two engines over one tree, of one dialect and with the same weights, of which one searches
exhaustively, never give different outcomes, whatever happened in their sessions before. -/
theorem early_exit_agrees_with_exhaustive_search (hBuilt : engine.tree.Built)
    (hTree : exhaustive.tree = engine.tree) (hDialect : exhaustive.dialect = engine.dialect)
    (hExit : exhaustive.options.earlyExit = false)
    (hAnswers : engine.weigher.Answers weight) (hOthers : exhaustive.weigher.Answers weight)
    (supply : LineSupply) (texts : List String) {session : Session σ} {other : Session τ}
    (hSession : engine.Reachable (supply.lines texts).1 session)
    (hOther : exhaustive.Reachable (supply.lines texts).1 other)
    (hLine : query.line ∈ (supply.lines texts).1) (token : CancelToken) (node : NodeId)
    (priority : Priority)
    (ha : ((engine.first query node priority).run.run session).1 = .ok a)
    (hb : ((exhaustive.first { query with token } node priority).run.run other).1 = .ok b) :
    a = b := by
  have hFast : engine.Yields weight query node priority a :=
    hSession.yields_of_first hAnswers hLine ha
  have hSameLine : ({ query with token } : Query).line ∈ (supply.lines texts).1 := hLine
  have hSlow : exhaustive.Yields weight { query with token } node priority b :=
    hOther.yields_of_first hOthers hSameLine hb
  exact hFast.agree hTree hDialect hBuilt hExit (hSlow.token query.token)

set_option maxRecDepth 10000 in
/-- A search that leaves out a sibling, after one that was cancelled, and the exhaustive search. -/
theorem early_exit_agrees_after_cancellation :
    let exhaustive := { noteEngine with options := { earlyExit := false } }
    noteEngine.tree.Built ∧ noteEngine.weigher.Answers Selector.weightOf ∧
    noteEngine.Reachable (LineSupply.lines ⟨0⟩ ["ab", "ab"]).1 noteSession ∧
    ∃ outcome,
      ((noteEngine.first (noteQuery 1 1 0) ⟨3⟩ .normal).run.run noteSession).1 = .ok outcome ∧
      ((exhaustive.first (noteQuery 1 1 2) ⟨3⟩ .normal).run.run exhaustive.newSession).1 =
        .ok outcome := by
  intro exhaustive
  have hBuilt : noteEngine.tree.Built := Tree.built_ofRules _ _
  have hTree : exhaustive.tree = noteEngine.tree := rfl
  have hExit : exhaustive.options.earlyExit = false := rfl
  obtain ⟨a, ha⟩ : ∃ a, ((noteEngine.first (noteQuery 1 1 0) ⟨3⟩ .normal).run.run
      noteSession).1 = .ok a := ⟨_, rfl⟩
  obtain ⟨b, hb⟩ : ∃ b, ((exhaustive.first (noteQuery 1 1 2) ⟨3⟩ .normal).run.run
      exhaustive.newSession).1 = .ok b := ⟨_, rfl⟩
  obtain rfl : a = b :=
    early_exit_agrees_with_exhaustive_search hBuilt hTree rfl hExit noteEngine_answers
      noteEngine_answers ⟨0⟩ ["ab", "ab"] noteSession_reachable .new (by decide) ⟨2⟩ ⟨3⟩ .normal
      ha hb
  exact ⟨hBuilt, noteEngine_answers, noteSession_reachable, a, ha, hb⟩

end GrammarSearch.Engine
