import GrammarSearch.Proofs.EarlyExit
import GrammarSearch.Proofs.InStep

/-!
# Injections that do not apply never show

`Engine.gated` is an engine whose rules have lost every injection that does not apply at a scope
path.  Where searches are exhaustive, the two engines run in step (`Search.InStep`): they ask the
memo the same questions, so they remember the same answers and fail in the same way.  The one
difference is that the weigher is asked about the injections left out, which may change its state
and cancel tokens, but not the answer as long as the token of the search is none of them.

Where searches stop early, the engines may leave out different siblings, because losing injections
takes flags from groups.  The candidates of a rule are the same for both, though, and neither leaves
out one that beats its best outcome (`not_beats_of_settles`), so their answers agree.
-/

namespace GrammarSearch

/-! ## Leaving injections out -/

/-- The rule with those injections only whose selector is kept. -/
def Rule.keepInjections (keep : String → Bool) (rule : Rule) : Rule :=
  { rule with injections := rule.injections.filter fun injection => keep injection.selector }

/-- The tree of the rules with those injections only whose selector is kept. The flags of groups are
those of the rules that are left. -/
def Tree.keepInjections (keep : String → Bool) (tree : Tree) : Tree :=
  .ofRules (tree.rules.map (Rule.keepInjections keep)) tree.roots

theorem Tree.rule?_keepInjections (keep : String → Bool) (tree : Tree) (node : NodeId) :
    (tree.keepInjections keep).rule? node = (tree.rule? node).map (Rule.keepInjections keep) := by
  simp [rule?, keepInjections, ofRules]

/-- A merge looks at the begin patterns of rules only. -/
theorem Outcome.better_keepInjections (keep : String → Bool) (tree : Tree) (old new : Outcome) :
    better (tree.keepInjections keep) old new = better tree old new := by
  have hSolid (outcome : Outcome) :
      outcome.isSolid (tree.keepInjections keep) = outcome.isSolid tree := by
    rw [isSolid, isSolid, Tree.rule?_keepInjections, Option.any_map]
    rfl
  simp only [better, hSolid]

/-! ## The engine without the injections that do not apply -/

namespace Engine

variable {σ : Type}

/-- The engine whose rules have lost the injections that do not apply at a scope path. -/
def gated (engine : Engine σ) (weight : String → String → Weight) (scope : String) : Engine σ :=
  { engine with
    tree := engine.tree.keepInjections fun selector => (weight selector scope).applies }

variable {engine : Engine σ} {weight : String → String → Weight} {query : Query}
variable {priority : Priority} {node child : NodeId}

theorem rule?_gated {scope : String} {rule : Rule} (hRule : engine.tree.rule? node = some rule) :
    (engine.gated weight scope).tree.rule? node =
      some (rule.keepInjections fun selector => (weight selector scope).applies) := by
  rw [gated, Tree.rule?_keepInjections, hRule]
  rfl

theorem rule?_gated_of_unknown {scope : String} (hRule : engine.tree.rule? node = none) :
    (engine.gated weight scope).tree.rule? node = none := by
  rw [gated, Tree.rule?_keepInjections, hRule]
  rfl

@[simp] theorem dialect_gated {scope : String} :
    (engine.gated weight scope).dialect = engine.dialect := rfl

theorem better_gated {scope : String} (old new : Outcome) :
    Outcome.better (engine.gated weight scope).tree old new =
      Outcome.better engine.tree old new :=
  Outcome.better_keepInjections _ _ _ _

section Exploring

variable {m : Type → Type} [Monad m] [MonadExceptOf Failure m] {visit : Visit m}

theorem candidate_gated {scope : String} :
    (engine.gated weight scope).candidate query visit priority child =
      engine.candidate query visit priority child := by
  cases hRule : engine.tree.rule? child with
  | none => rw [candidate_of_unknown hRule, candidate_of_unknown (rule?_gated_of_unknown hRule)]
  | some rule =>
    have hGated : (engine.gated weight scope).tree.rule? child = some (rule.keepInjections _) :=
      rule?_gated hRule
    rcases rule.kind.cases with ⟨pattern, hPattern⟩ | hClosing | hGroup
    · rw [candidate_of_pattern hRule hPattern, candidate_of_pattern hGated hPattern, dialect_gated]
    · rw [candidate_of_closing hRule hClosing, candidate_of_closing hGated hClosing]
    · rw [candidate_of_group hRule hGroup, candidate_of_group hGated hGroup]

/-- Without early exit the flags of groups play no part. -/
theorem bestChild_gated {scope : String} (hExit : engine.options.earlyExit = false)
    (best : Outcome) (children : List NodeId) :
    (engine.gated weight scope).bestChild query visit priority best children =
      engine.bestChild query visit priority best children := by
  have hGated : (engine.gated weight scope).options.earlyExit = false := hExit
  induction children generalizing best with
  | nil => rfl
  | cons child later ih =>
    rw [bestChild, bestChild, candidate_gated]
    refine bind_congr fun outcome => ?_
    dsimp only
    rw [settles_of_exhaustive hExit, settles_of_exhaustive hGated, better_gated, ih]

omit [MonadExceptOf Failure m] in
theorem bestInjection_gated {scope : String} {weigh : Weigh m} (best : Outcome)
    (injections : List Injection) :
    (engine.gated weight scope).bestInjection query weigh visit best injections =
      engine.bestInjection query weigh visit best injections := by
  induction injections generalizing best with
  | nil => rfl
  | cons injection later ih =>
    rw [bestInjection, bestInjection]
    refine bind_congr fun found => ?_
    split
    · refine bind_congr fun outcome => ?_
      rw [better_gated, ih]
    · exact ih best

end Exploring

/-! ## Exhaustive searches -/

section InStep

variable {leftVisit rightVisit : Visit (Search σ)} {token : CancelToken}
variable (hAnswers : engine.weigher.Answers weight)
variable (hVisit : ∀ node priority,
  Search.InStep token (leftVisit node priority) (rightVisit node priority))

theorem keepsCancelled_bestInjection
    (hKeeps : ∀ node priority, Search.KeepsCancelled token (leftVisit node priority))
    (best : Outcome) (injections : List Injection) :
    Search.KeepsCancelled token
      (engine.bestInjection query engine.weigh leftVisit best injections) := by
  induction injections generalizing best with
  | nil => exact fun _ hHolds => hHolds
  | cons injection later ih =>
    rw [bestInjection]
    refine Search.keepsCancelled_bind (Search.keepsCancelled_weigh engine _ _) fun found => ?_
    split
    · exact Search.keepsCancelled_bind (hKeeps _ _) fun outcome => ih _
    · exact ih best

include hAnswers hVisit

/-- Injections that do not apply may be left out on one side. -/
theorem inStep_bestInjection (best : Outcome) (injections : List Injection) :
    Search.InStep token (engine.bestInjection query engine.weigh leftVisit best injections)
      (engine.bestInjection query engine.weigh rightVisit best
        (injections.filter (applies weight query))) := by
  induction injections generalizing best with
  | nil => exact Search.inStep_pure best
  | cons injection later ih =>
    rcases Bool.eq_false_or_eq_true (applies weight query injection) with hApplies | hSkipped
    · rw [List.filter_cons_of_pos hApplies, bestInjection, bestInjection]
      refine Search.inStep_bind (Search.inStep_weigh hAnswers hAnswers _ _) fun found => ?_
      split
      · exact Search.inStep_bind (hVisit _ _) fun outcome => ih _
      · exact ih best
    · rw [List.filter_cons_of_neg (Bool.eq_false_iff.1 hSkipped), bestInjection]
      have hKeeps (node : NodeId) (priority : Priority) :
          Search.KeepsCancelled token (leftVisit node priority) := (hVisit node priority).left_keeps
      refine Search.inStep_of_weigh hAnswers (fun found => ?_) ?_
      · split
        · exact Search.keepsCancelled_bind (hKeeps _ _) fun outcome =>
            keepsCancelled_bestInjection hKeeps _ later
        · exact keepsCancelled_bestInjection hKeeps best later
      · rw [show (weight injection.selector query.scope).applies = false from hSkipped]
        exact ih best

theorem inStep_explore (hExit : engine.options.earlyExit = false) (node : NodeId)
    (priority : Priority) :
    Search.InStep token (engine.explore query engine.weigh leftVisit node priority)
      ((engine.gated weight query.scope).explore query (engine.gated weight query.scope).weigh
        rightVisit node priority) := by
  cases hRule : engine.tree.rule? node with
  | none =>
    simp only [explore, hRule, rule?_gated_of_unknown hRule]
    exact Search.inStep_throw _
  | some rule =>
    simp only [explore, hRule, rule?_gated hRule]
    refine Search.inStep_bind ?_ fun best => ?_
    · rw [bestChild_gated hExit]
      exact (Search.congruence_inStep token).bestChild hVisit priority _ rule.children
    · refine Search.inStep_bind ?_ fun injected => ?_
      · rw [bestInjection_gated]
        exact inStep_bestInjection hAnswers hVisit _ rule.injections
      · rw [better_gated]
        exact Search.inStep_pure _

omit hVisit

/-- Visits of the two engines run in step where neither stops early. -/
theorem inStep_visit (hExit : engine.options.earlyExit = false) (budget : Nat) (node : NodeId)
    (priority : Priority) :
    Search.InStep query.token (engine.visit query budget node priority)
      ((engine.gated weight query.scope).visit query budget node priority) := by
  induction budget generalizing node priority with
  | zero => exact Search.inStep_checkToken (Search.inStep_throw _)
  | succ budget ih =>
    refine Search.inStep_checkToken (Search.inStep_remember ?_)
    exact inStep_explore hAnswers ih hExit node priority

end InStep

/-! ## Searches that stop early -/

theorem below_gated (place : NodeId × Priority) :
    (engine.gated weight query.scope).below weight query place =
      engine.below weight query place := by
  obtain ⟨node, priority⟩ := place
  have hGroup : (engine.gated weight query.scope).isGroup = engine.isGroup := by
    funext child
    rw [isGroup, isGroup, gated, Tree.rule?_keepInjections, Option.any_map]
    rfl
  cases hRule : engine.tree.rule? node with
  | none => simp only [below, hRule, rule?_gated_of_unknown hRule]
  | some rule =>
    have hApplies : (fun injection : Injection => (weight injection.selector query.scope).applies) =
        applies weight query := rfl
    simp only [below, hRule, rule?_gated hRule, Rule.keepInjections, hGroup, hApplies,
      List.filter_filter, Bool.and_self]

theorem own?_gated {scope : String} :
    (engine.gated weight scope).own? query priority child = engine.own? query priority child := by
  cases hRule : engine.tree.rule? child with
  | none =>
    simp only [own?, hRule, rule?_gated_of_unknown hRule]
    rfl
  | some rule =>
    simp only [own?, hRule, rule?_gated hRule]
    rfl

theorem isCandidate_gated_iff {place : NodeId × Priority} {c : Outcome} :
    (engine.gated weight query.scope).IsCandidate weight query place c ↔
      engine.IsCandidate weight query place c := by
  simp only [IsCandidate, below_gated, own?_gated]
  refine exists_congr fun last => and_congr_right fun _ => ?_
  cases hRule : engine.tree.rule? last.1 with
  | none => simp only [rule?_gated_of_unknown hRule]
  | some rule =>
    simp only [rule?_gated hRule, Option.some.injEq, exists_eq_left']
    rfl

/-- The two engines have the same candidates. -/
theorem ofChild_gated_iff {c : Outcome} :
    (engine.gated weight query.scope).OfChild weight query priority child c ↔
      engine.OfChild weight query priority child c := by
  have hGroup : (engine.gated weight query.scope).isGroup child = engine.isGroup child := by
    rw [isGroup, isGroup, gated, Tree.rule?_keepInjections, Option.any_map]
    rfl
  rw [OfChild, OfChild, own?_gated, hGroup, isCandidate_gated_iff]

/-- In a plain search injections that do not apply may be left out. -/
theorem bestInjection_filter {visit : Visit (Except Failure)} (best : Outcome)
    (injections : List Injection) :
    engine.bestInjection query (weighBy weight) visit best
        (injections.filter (applies weight query)) =
      engine.bestInjection query (weighBy weight) visit best injections := by
  induction injections generalizing best with
  | nil => rfl
  | cons injection later ih =>
    rcases Bool.eq_false_or_eq_true (applies weight query injection) with hApplies | hSkipped
    · rw [List.filter_cons_of_pos hApplies, bestInjection, bestInjection]
      simp only [ih]
    · have hWeight : (weight injection.selector query.scope).applies = false := hSkipped
      rw [List.filter_cons_of_neg (Bool.eq_false_iff.1 hSkipped), bestInjection, weighBy, ih]
      simp only [bind, Except.bind, hWeight, Bool.false_eq_true, if_false]

section Agreeing

variable {fast slow : Visit (Except Failure)}

/-- Of visits that agree the two engines make explorations that agree: where one of them leaves out
siblings, the other one finds nothing there that beats its best outcome. -/
theorem explore_agree_gated (hBuilt : engine.tree.Built) (hAgree : Agree fast slow)
    (hFast : engine.VisitsGenuinely weight query fast)
    (hSlow : (engine.gated weight query.scope).VisitsGenuinely weight query slow) :
    Agree (engine.explore query (weighBy weight) fast)
      ((engine.gated weight query.scope).explore query (weighBy weight) slow) := by
  have hGated : (engine.gated weight query.scope).tree.Built := Tree.built_ofRules _ _
  intro node priority a b ha hb
  obtain ⟨rule, best, injected, hRule, hBest, hInjected, rfl⟩ := explore_eq_ok_iff.1 ha
  obtain ⟨other, otherBest, otherInjected, hOther, hOtherBest, hOtherInjected, rfl⟩ :=
    explore_eq_ok_iff.1 hb
  rw [rule?_gated hRule] at hOther
  obtain rfl := Option.some.inj hOther
  have hSameBest : best = otherBest := by
    refine bestChild_agree_of_settles better_gated ?_ ?_ ?_ hBest hOtherBest
    · intro child a b ha hb
      rw [candidate_gated] at hb
      exact candidate_agree rfl rfl hAgree ha hb
    · intro best later hSettles child hMem next hNext
      rcases Bool.eq_false_or_eq_true next.found with hHit | hMiss
      · have hOf := ofChild_gated_iff.1 (ofChild_of_candidate hSlow hNext hHit)
        exact not_beats_of_settles hBuilt hSettles hMem hOf
      · exact Outcome.not_beats_of_not_found hMiss
    · intro best later hSettles child hMem next hNext
      rcases Bool.eq_false_or_eq_true next.found with hHit | hMiss
      · have hOf := ofChild_gated_iff.2 (ofChild_of_candidate hFast hNext hHit)
        exact not_beats_of_settles hGated hSettles hMem hOf
      · exact Outcome.not_beats_of_not_found hMiss
  have hSameInjected : injected = otherInjected := by
    have hFilter : (rule.keepInjections fun selector =>
        (weight selector query.scope).applies).injections =
          rule.injections.filter (applies weight query) := rfl
    rw [bestInjection_gated, hFilter, bestInjection_filter] at hOtherInjected
    exact bestInjection_agree rfl hAgree hInjected hOtherInjected
  rw [better_gated, hSameBest, hSameInjected]

theorem plain_agree_gated (hBuilt : engine.tree.Built) (budget : Nat) :
    Agree (engine.plain weight query budget)
      ((engine.gated weight query.scope).plain weight query budget) := by
  induction budget with
  | zero =>
    intro node priority a b ha
    simp [plain] at ha
  | succ budget ih =>
    exact explore_agree_gated hBuilt ih (genuine_of_plain budget) (genuine_of_plain budget)

end Agreeing

/-! ## New sessions -/

/-- What a new session answers is a plain answer. -/
theorem yields_of_first_newSession (hAnswers : engine.weigher.Answers weight) {answer : Outcome}
    (hAnswer : ((engine.first query node priority).run.run engine.newSession).1 = .ok answer) :
    engine.Yields weight query node priority answer := by
  have hLine : query.line ∈ (LineSupply.lines ⟨query.line.id⟩ [query.line.text]).1 :=
    List.mem_singleton_self query.line
  exact Reachable.yields_of_first hAnswers .new hLine hAnswer

/-- An engine answers a scope path as it would without the injections that do not apply there. In
new sessions whose token is never cancelled the two give the same result, a failure included, where
neither stops early, and never different answers where they do. -/
theorem inapplicable_injections_never_show (hBuilt : engine.tree.Built)
    (hAnswers : engine.weigher.Answers weight) (query : Query) (node : NodeId)
    (priority : Priority) :
    (engine.options.earlyExit = false →
      ((engine.first query node priority).run.run engine.newSession).2.cancelled.holds
        query.token = false →
      (((engine.gated weight query.scope).first query node priority).run.run
        (engine.gated weight query.scope).newSession).2.cancelled.holds query.token = false →
      ((engine.first query node priority).run.run engine.newSession).1 =
        (((engine.gated weight query.scope).first query node priority).run.run
          (engine.gated weight query.scope).newSession).1) ∧
    ∀ a b, ((engine.first query node priority).run.run engine.newSession).1 = .ok a →
      (((engine.gated weight query.scope).first query node priority).run.run
        (engine.gated weight query.scope).newSession).1 = .ok b → a = b := by
  constructor
  · intro hExit hToken hGatedToken
    have hInStep : Search.InStep query.token (engine.first query node priority)
        ((engine.gated weight query.scope).first query node priority) :=
      inStep_visit hAnswers hExit (engine.options.maxDepth + 1) node priority
    exact (hInStep.same engine.newSession (engine.gated weight query.scope).newSession rfl hToken
      hGatedToken).1
  · intro a b ha hb
    have hGatedAnswers : (engine.gated weight query.scope).weigher.Answers weight := hAnswers
    obtain ⟨low, hLow⟩ := yields_of_first_newSession hAnswers ha
    obtain ⟨high, hHigh⟩ := yields_of_first_newSession hGatedAnswers hb
    exact plain_agree_gated hBuilt (max low high) node priority a b
      (plain_of_le (Nat.le_max_left low high) hLow) (plain_of_le (Nat.le_max_right low high) hHigh)

/-- The engine of notes, searching exhaustively. -/
def thoroughEngine : Engine Unit :=
  { noteEngine with options := { earlyExit := false } }

/-- A search inside a string, where the injection into comments does not apply. -/
def stringQuery : Query :=
  ⟨⟨0, "ab"⟩, 1, "string", ⟨0⟩⟩

set_option maxRecDepth 10000 in
/-- The injection into comments is gone from the gated tree, and its absence does not show. -/
theorem comment_injection_unseen_in_string :
    thoroughEngine.tree.Built ∧ thoroughEngine.weigher.Answers Selector.weightOf ∧
    (thoroughEngine.tree.rule? ⟨3⟩).map (·.injections) = some [⟨"L:comment", ⟨2⟩⟩] ∧
    ((thoroughEngine.gated Selector.weightOf "string").tree.rule? ⟨3⟩).map (·.injections) =
      some [] ∧
    ((thoroughEngine.first stringQuery ⟨3⟩ .normal).run.run thoroughEngine.newSession).1 =
      (((thoroughEngine.gated Selector.weightOf "string").first stringQuery ⟨3⟩ .normal).run.run
        (thoroughEngine.gated Selector.weightOf "string").newSession).1 := by
  have hBuilt : thoroughEngine.tree.Built := Tree.built_ofRules _ _
  have hToken : ((thoroughEngine.first stringQuery ⟨3⟩ .normal).run.run
      thoroughEngine.newSession).2.cancelled.holds stringQuery.token = false := rfl
  have hGatedToken :
      (((thoroughEngine.gated Selector.weightOf "string").first stringQuery ⟨3⟩ .normal).run.run
        (thoroughEngine.gated Selector.weightOf "string").newSession).2.cancelled.holds
          stringQuery.token = false := by decide +kernel
  obtain ⟨hSame, -⟩ :=
    inapplicable_injections_never_show hBuilt noteEngine_answers stringQuery ⟨3⟩ .normal
  exact ⟨hBuilt, noteEngine_answers, rfl, by decide +kernel, hSame rfl hToken hGatedToken⟩

end Engine

end GrammarSearch
