import GrammarSearch.Proofs.CandidateList
import GrammarSearch.Proofs.EarlyExit
import GrammarSearch.Proofs.SearchFailures
import GrammarSearch.Proofs.VisitCount

/-!
# The depth limit

A search goes from a rule to the groups among its children and to the targets of the injections that
apply (`LeadsTo`).  `ReachesIn` counts the steps of such a chain.  Each step takes one from the
budget of a visit and nothing else does, so a visit fails for want of depth only at the end of a
chain that uses the budget up.  The memo has no part in this: what it holds are answers, and an
answer only cuts a chain short.

In an exhaustive search a group that contains itself is visited again and again with less budget, so
the plain search has no answer for it, and neither has a session that a host can reach: what it
remembers are plain answers.

## Main results

* `reachesIn_of_visit`: a visit fails for want of depth only after as many steps as its budget.
* `not_yields_of_groups`: an exhaustive search without a limit has no answer below a group that
  contains itself.
* `depth_limit_stops_long_chains_only`: these in a session, with the number of visits of a search.
-/

namespace GrammarSearch.Engine

open Search

variable {σ : Type}

/-- A search of the first rule goes on to the second one in so many steps. -/
def ReachesIn (engine : Engine σ) (weight : String → String → Weight) (query : Query) :
    (steps : Nat) → NodeId → NodeId → Prop
  | 0, first, last => first = last
  | steps + 1, first, last =>
    ∃ next, engine.LeadsTo weight query first next ∧ engine.ReachesIn weight query steps next last

/-- The second rule is a group among the children of the first one. -/
def Groups (engine : Engine σ) (above below : NodeId) : Prop :=
  ∃ rule, engine.tree.rule? above = some rule ∧ below ∈ rule.children ∧
    engine.isGroup below = true

variable {engine : Engine σ} {weight : String → String → Weight} {query : Query}
variable {node : NodeId} {priority : Priority}

/-! ## Chains that are too long -/

/-- A failure for want of depth tells the depth of the options and a rule that is so many steps
away.  Every other failure is allowed. -/
def TooDeep (engine : Engine σ) (weight : String → String → Weight) (query : Query)
    (steps : Nat) (node : NodeId) (failure : Failure) : Prop :=
  ∀ deep depth, failure = .recursionLimit deep depth →
    depth = engine.options.maxDepth ∧ engine.ReachesIn weight query steps node deep

theorem TooDeep.step {steps : Nat} {next : NodeId} {failure : Failure}
    (hLeads : engine.LeadsTo weight query node next)
    (h : engine.TooDeep weight query steps next failure) :
    engine.TooDeep weight query (steps + 1) node failure := by
  intro deep depth hFailure
  obtain ⟨hDepth, hReaches⟩ := h deep depth hFailure
  exact ⟨hDepth, next, hLeads, hReaches⟩

/-- A visit fails for want of depth only after as many steps as its budget, in any session. -/
theorem reachesIn_of_visit (hAnswers : engine.weigher.Answers weight) (budget : Nat)
    (node : NodeId) (priority : Priority) :
    FailsOnly (engine.TooDeep weight query budget node)
      (engine.visit query budget node priority) := by
  have hOther {steps : Nat} {node : NodeId} {failure : Failure}
      (hNot : ∀ deep depth, failure ≠ .recursionLimit deep depth) :
      engine.TooDeep weight query steps node failure :=
    fun deep depth hFailure => absurd hFailure (hNot deep depth)
  induction budget generalizing node priority with
  | zero =>
    refine failsOnly_checkToken (hOther (by simp)) (failsOnly_throw ?_)
    intro deep depth hFailure
    obtain ⟨rfl, rfl⟩ := Failure.recursionLimit.inj hFailure
    exact ⟨rfl, rfl⟩
  | succ budget ih =>
    have hStep {next : NodeId} {nextPriority : Priority}
        (hBelow : (next, nextPriority) ∈ engine.below weight query (node, priority)) :
        FailsOnly (engine.TooDeep weight query (budget + 1) node)
          (engine.visit query budget next nextPriority) :=
      fun session failure hFails =>
        (ih next nextPriority session failure hFails).step ⟨priority, nextPriority, hBelow⟩
    refine failsOnly_checkToken (hOther (by simp)) (failsOnly_remember ?_)
    refine failsOnly_explore (fun _ _ => hOther (by simp)) (fun _ => hOther (by simp)) ?_ ?_
    · intro rule hRule child hChild
      refine ⟨fun _ => hOther (by simp), ?_⟩
      intro group hGroup hKind
      have hIsGroup : engine.isGroup child = true := isGroup_iff_kind.2 ⟨group, hGroup, hKind⟩
      exact hStep ((mem_below_iff hRule).2 (Or.inl ⟨child, hChild, hIsGroup, rfl⟩))
    · intro rule hRule injection hInjection state hApplies
      rw [hAnswers] at hApplies ⊢
      exact hStep ((mem_below_iff hRule).2 (Or.inr ⟨injection, hInjection, hApplies, rfl⟩))

/-! ## Groups that contain themselves -/

section

variable (hExit : engine.options.earlyExit = false)

include hExit

/-- An exhaustive search that answers has looked at every child. -/
theorem exists_candidate_of_bestChild {visit : Visit (Except Failure)} {best outcome : Outcome}
    {children : List NodeId}
    (h : engine.bestChild query visit priority best children = .ok outcome) {child : NodeId}
    (hChild : child ∈ children) :
    ∃ next, engine.candidate query visit priority child = .ok next := by
  induction children generalizing best with
  | nil => contradiction
  | cons first later ih =>
    obtain ⟨next, hNext, ⟨hSettles, -⟩ | ⟨-, hLater⟩⟩ := bestChild_cons_eq_ok_iff.1 h
    · rw [settles_of_exhaustive hExit] at hSettles
      contradiction
    · rcases List.mem_cons.1 hChild with rfl | hMem
      · exact ⟨next, hNext⟩
      · exact ih hLater hMem

/-- Where an exhaustive plain search answers, it answers with less budget for each group below. -/
theorem exists_plain_of_groups {budget : Nat} {below : NodeId} {outcome : Outcome}
    (hGroups : engine.Groups node below)
    (h : engine.plain weight query (budget + 1) node priority = .ok outcome) :
    ∃ inner, engine.plain weight query budget below priority = .ok inner := by
  obtain ⟨rule, hRule, hChild, hIsGroup⟩ := hGroups
  obtain ⟨other, best, -, hOther, hBest, -⟩ := explore_eq_ok_iff.1 h
  obtain rfl : rule = other := Option.some.inj (hRule.symm.trans hOther)
  obtain ⟨inner, hInner⟩ := exists_candidate_of_bestChild hExit hBest hChild
  obtain ⟨group, hGroup, hKind⟩ := isGroup_iff_kind.1 hIsGroup
  rw [candidate_of_group hGroup hKind] at hInner
  exact ⟨inner, hInner⟩

/-- An exhaustive search, whatever its budget, has no answer for a rule that contains a group which
contains itself, at whatever depth. -/
theorem not_yields_of_groups {group : NodeId}
    (hReached : Relation.ReflTransGen engine.Groups node group)
    (hCycle : Relation.TransGen engine.Groups group group) (outcome : Outcome) :
    ¬ engine.Yields weight query node priority outcome := by
  rintro ⟨budget, hBudget⟩
  induction budget generalizing node outcome with
  | zero => exact nomatch hBudget
  | succ budget ih =>
    -- Whatever contains the group contains another rule that does: on a cycle there is always a
    -- next one.
    obtain ⟨below, hGroups, hBelow⟩ :
        ∃ below, engine.Groups node below ∧ Relation.ReflTransGen engine.Groups below group := by
      rcases hReached.cases_head with rfl | hNext
      · exact Relation.TransGen.head'_iff.1 hCycle
      · exact hNext
    obtain ⟨inner, hInner⟩ := exists_plain_of_groups hExit hGroups hBudget
    exact ih hBelow inner hInner

end

/-! ## Sessions -/

/-- In every session that a host can reach, a search makes no more visits than there are ways to go
on from rule to rule in as many steps as the depth allows.  It fails for want of depth only at the
end of a chain that is one step longer, and tells the depth of the options then.  An exhaustive
search of a rule that contains a group which contains itself never answers. -/
theorem depth_limit_stops_long_chains_only (hAnswers : engine.weigher.Answers weight)
    (supply : LineSupply) (texts : List String) {session : Session σ}
    (hReachable : engine.Reachable (supply.lines texts).1 session)
    (hLine : query.line ∈ (supply.lines texts).1) (node : NodeId) (priority : Priority) :
    ((engine.first query node priority).run.run session).2.memo.clock ≤
      session.memo.clock +
        ∑ steps ∈ Finset.range (engine.options.maxDepth + 1), engine.tree.fanOut ^ steps ∧
    ((∀ steps last, engine.ReachesIn weight query steps node last →
        steps ≤ engine.options.maxDepth) →
      ∀ deep depth, ((engine.first query node priority).run.run session).1 ≠
        .error (.recursionLimit deep depth)) ∧
    (∀ deep depth, ((engine.first query node priority).run.run session).1 =
        .error (.recursionLimit deep depth) →
      depth = engine.options.maxDepth ∧
        engine.ReachesIn weight query (engine.options.maxDepth + 1) node deep) ∧
    (engine.options.earlyExit = false →
      ∀ group, Relation.ReflTransGen engine.Groups node group →
        Relation.TransGen engine.Groups group group →
        ∀ outcome, ((engine.first query node priority).run.run session).1 ≠ .ok outcome) := by
  have hDeep : ∀ deep depth, ((engine.first query node priority).run.run session).1 =
      .error (.recursionLimit deep depth) → depth = engine.options.maxDepth ∧
        engine.ReachesIn weight query (engine.options.maxDepth + 1) node deep :=
    fun deep depth hFails =>
      reachesIn_of_visit hAnswers _ node priority session _ hFails deep depth rfl
  refine ⟨asks_visit engine query _ node priority session, ?_, hDeep, ?_⟩
  · intro hShort deep depth hFails
    have hSteps := hShort _ deep (hDeep deep depth hFails).2
    exact absurd hSteps (Nat.not_succ_le_self _)
  · intro hExit group hReached hCycle outcome hAnswer
    exact not_yields_of_groups hExit hReached hCycle outcome
      (hReachable.yields_of_first hAnswers hLine hAnswer)

/-- The groups 2 and 3 contain each other; the group 1 contains a rule with a pattern only. -/
def roundEngine : Engine Unit where
  tree := .ofRules
    #[{ matchPattern := some ⟨"b"⟩ }, { children := [⟨0⟩] }, { children := [⟨1⟩, ⟨3⟩] },
      { children := [⟨2⟩] }] []
  weigher := .selectors
  options := { maxDepth := 2, earlyExit := false }

/-- What a search that runs into the limit leaves: the answer for the group 1. -/
def roundSession : Session Unit :=
  ((roundEngine.first (noteQuery 0 0 0) ⟨2⟩ .normal).run.run roundEngine.newSession).2

set_option maxRecDepth 10000 in
/-- The groups that contain each other run into the limit at the group 1, although its answer is
remembered: the limit comes first.  The group 1 itself does not run into it. -/
theorem round_runs_into_the_limit :
    roundEngine.weigher.Answers Selector.weightOf ∧
    roundEngine.Reachable (LineSupply.lines ⟨0⟩ ["ab"]).1 roundSession ∧
    roundSession.memo.size = 1 ∧
    ((roundEngine.first (noteQuery 0 0 0) ⟨2⟩ .normal).run.run roundSession).1 =
      .error (.recursionLimit ⟨1⟩ 2) ∧
    roundEngine.ReachesIn Selector.weightOf (noteQuery 0 0 0) 3 ⟨2⟩ ⟨1⟩ ∧
    (∀ outcome, ((roundEngine.first (noteQuery 0 0 0) ⟨2⟩ .normal).run.run roundSession).1 ≠
      .ok outcome) ∧
    ∀ deep depth, ((roundEngine.first (noteQuery 0 0 0) ⟨1⟩ .normal).run.run roundSession).1 ≠
      .error (.recursionLimit deep depth) := by
  have hAnswers : roundEngine.weigher.Answers Selector.weightOf := Weigher.answers_ofFunction _
  have hLine : (noteQuery 0 0 0).line ∈ (LineSupply.lines ⟨0⟩ ["ab"]).1 := by decide
  have hReachable : roundEngine.Reachable (LineSupply.lines ⟨0⟩ ["ab"]).1 roundSession :=
    .first .new hLine ⟨2⟩ .normal
  have hFails : ((roundEngine.first (noteQuery 0 0 0) ⟨2⟩ .normal).run.run roundSession).1 =
      .error (.recursionLimit ⟨1⟩ 2) := rfl
  have hDown : roundEngine.Groups ⟨2⟩ ⟨3⟩ := ⟨_, rfl, by decide, rfl⟩
  have hUp : roundEngine.Groups ⟨3⟩ ⟨2⟩ := ⟨_, rfl, by decide, rfl⟩
  have hShort : ∀ steps last,
      roundEngine.ReachesIn Selector.weightOf (noteQuery 0 0 0) steps ⟨1⟩ last → steps ≤ 2 := by
    rintro (_ | steps) last hReaches
    · exact Nat.zero_le 2
    · obtain ⟨next, ⟨priority, nextPriority, hBelow⟩, -⟩ := hReaches
      have hNone : roundEngine.below Selector.weightOf (noteQuery 0 0 0) (⟨1⟩, priority) = [] := rfl
      rw [hNone] at hBelow
      contradiction
  obtain ⟨-, -, hDeep, hCycle⟩ := depth_limit_stops_long_chains_only hAnswers ⟨0⟩ ["ab"] hReachable
    hLine ⟨2⟩ .normal
  obtain ⟨-, hFlat, -, -⟩ := depth_limit_stops_long_chains_only hAnswers ⟨0⟩ ["ab"] hReachable
    hLine ⟨1⟩ .normal
  exact ⟨hAnswers, hReachable, rfl, hFails, (hDeep ⟨1⟩ 2 hFails).2,
    hCycle rfl ⟨2⟩ .refl (.tail (.single hDown) hUp), hFlat hShort⟩

end GrammarSearch.Engine
