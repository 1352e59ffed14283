import GrammarSearch.Proofs.MemoFreeSearch

/-!
# What a search can fail with

`Search.FailsOnly p` says that every failure of a search satisfies `p`, whatever the session that it
is started in: a memo holds answers only, so no session can add a failure.  A cancelled token and a
pattern that does not compile are failures anywhere.  All others come from the rules that a search
goes on to, and `Engine.failsOnly_explore` asks for just those.
-/

namespace GrammarSearch

namespace Search

variable {σ α β : Type}

/-- Every failure of the search satisfies a condition, whatever the session. -/
def FailsOnly (p : Failure → Prop) (search : Search σ α) : Prop :=
  ∀ session failure, (search.run.run session).1 = .error failure → p failure

variable {p : Failure → Prop}

theorem failsOnly_pure (value : α) : FailsOnly p (pure value : Search σ α) :=
  fun _ _ hFails => nomatch hFails

theorem failsOnly_throw {failure : Failure} (h : p failure) :
    FailsOnly p (throw failure : Search σ α) := by
  intro session other hFails
  obtain rfl : failure = other := Except.error.inj hFails
  exact h

theorem failsOnly_ofExcept {result : Except Failure α}
    (h : ∀ failure, result = .error failure → p failure) :
    FailsOnly p (MonadExcept.ofExcept result : Search σ α) := by
  cases result with
  | ok value => exact failsOnly_pure value
  | error failure => exact failsOnly_throw (h failure rfl)

theorem failsOnly_bind {search : Search σ α} {next : α → Search σ β} (h : FailsOnly p search)
    (hNext : ∀ value, FailsOnly p (next value)) : FailsOnly p (search >>= next) := by
  intro session failure
  have hFirst := h session failure
  rw [run_bind]
  rcases hRun : search.run.run session with ⟨other | value, between⟩
  · rw [hRun] at hFirst
    exact fun hFails => hFirst (congrArg _ (Except.error.inj hFails))
  · exact hNext value between failure

/-- Looking at a token first can only add a cancellation. -/
theorem failsOnly_checkToken {search : Search σ α} {token : CancelToken} (hCancelled : p .cancelled)
    (h : FailsOnly p search) : FailsOnly p (checkToken token >>= fun _ => search) := by
  refine failsOnly_bind ?_ fun _ => h
  intro session failure hFails
  rw [run_checkToken] at hFails
  split at hFails
  · obtain rfl : Failure.cancelled = failure := Except.error.inj hFails
    exact hCancelled
  · exact nomatch hFails

/-- Weighing never fails, so only what is done with a weight that the weigher gives can. -/
theorem failsOnly_bind_weigh {engine : Engine σ} {selector scope : String}
    {next : Weight → Search σ α}
    (hNext : ∀ state, FailsOnly p (next (engine.weigher.ask selector scope state).weight)) :
    FailsOnly p (engine.weigh selector scope >>= next) := by
  intro session failure
  rw [run_bind, run_weigh]
  exact hNext session.weighing _ failure

/-- What is remembered is an answer, so only working an answer out can fail. -/
theorem failsOnly_remember {key : SearchKey} {compute : Search σ Outcome}
    (h : FailsOnly p compute) : FailsOnly p (remember key compute) := by
  intro session failure
  cases hFind : session.memo.find? key with
  | some outcome =>
    rw [run_remember, Memo.fetch_of_find?_eq_some hFind]
    exact fun hFails => nomatch hFails
  | none =>
    have hCompute := h { session with memo := session.memo.tick } failure
    rw [run_remember_of_find?_eq_none hFind]
    rcases hRun : compute.run.run { session with memo := session.memo.tick } with
      ⟨other | outcome, after⟩
    · rw [hRun] at hCompute
      exact hCompute
    · exact fun hFails => nomatch hFails

end Search

namespace Engine

open Search

variable {σ : Type} {engine : Engine σ} {query : Query} {visit : Visit (Search σ)}
variable {p : Failure → Prop}
variable (hPattern : ∀ source reason, p (.invalidPattern source reason))

include hPattern

theorem failsOnly_candidate {child : NodeId} {priority : Priority}
    (hUnknown : engine.tree.rule? child = none → p (.unknownNode child))
    (hVisit : ∀ rule, engine.tree.rule? child = some rule → rule.kind = .group →
      FailsOnly p (visit child priority)) :
    FailsOnly p (engine.candidate query visit priority child) := by
  cases hRule : engine.tree.rule? child with
  | none =>
    rw [candidate_of_unknown hRule]
    exact failsOnly_throw (hUnknown hRule)
  | some rule =>
    rcases rule.kind.cases with ⟨pattern, hOwn⟩ | hClosing | hGroup
    · rw [candidate_of_pattern hRule hOwn]
      refine failsOnly_bind (failsOnly_ofExcept ?_) fun hit => failsOnly_pure _
      intro failure hFails
      obtain ⟨reason, rfl⟩ := Pattern.Dialect.exists_of_search_eq_error hFails
      exact hPattern pattern.source reason
    · rw [candidate_of_closing hRule hClosing]
      exact failsOnly_pure _
    · rw [candidate_of_group hRule hGroup]
      exact hVisit rule hRule hGroup

omit hPattern in
theorem failsOnly_bestChild {priority : Priority} {best : Outcome} {children : List NodeId}
    (hChildren : ∀ child ∈ children, FailsOnly p (engine.candidate query visit priority child)) :
    FailsOnly p (engine.bestChild query visit priority best children) := by
  induction children generalizing best with
  | nil => exact failsOnly_pure best
  | cons child later ih =>
    obtain ⟨hChild, hLater⟩ := List.forall_mem_cons.1 hChildren
    rw [bestChild]
    refine failsOnly_bind hChild fun outcome => ?_
    dsimp only
    split
    · exact failsOnly_pure _
    · exact ih hLater

omit hPattern in
theorem failsOnly_bestInjection {best : Outcome} {injections : List Injection}
    (hTargets : ∀ injection ∈ injections, ∀ state,
      (engine.weigher.ask injection.selector query.scope state).weight.applies = true →
      FailsOnly p (visit injection.target
        (engine.weigher.ask injection.selector query.scope state).weight.priority)) :
    FailsOnly p (engine.bestInjection query engine.weigh visit best injections) := by
  induction injections generalizing best with
  | nil => exact failsOnly_pure best
  | cons injection later ih =>
    obtain ⟨hTarget, hLater⟩ := List.forall_mem_cons.1 hTargets
    rw [bestInjection]
    refine failsOnly_bind_weigh fun state => ?_
    split
    · next hApplies => exact failsOnly_bind (hTarget state hApplies) fun outcome => ih hLater
    · exact ih hLater

/-- A rule fails only if it is not there, or as its children or the targets of its injections do. -/
theorem failsOnly_explore {node : NodeId} {priority : Priority}
    (hUnknown : engine.tree.rule? node = none → p (.unknownNode node))
    (hChildren : ∀ rule, engine.tree.rule? node = some rule → ∀ child ∈ rule.children,
      (engine.tree.rule? child = none → p (.unknownNode child)) ∧
      ∀ group, engine.tree.rule? child = some group → group.kind = .group →
        FailsOnly p (visit child priority))
    (hTargets : ∀ rule, engine.tree.rule? node = some rule → ∀ injection ∈ rule.injections,
      ∀ state, (engine.weigher.ask injection.selector query.scope state).weight.applies = true →
      FailsOnly p (visit injection.target
        (engine.weigher.ask injection.selector query.scope state).weight.priority)) :
    FailsOnly p (engine.explore query engine.weigh visit node priority) := by
  unfold explore
  cases hRule : engine.tree.rule? node with
  | none => exact failsOnly_throw (hUnknown hRule)
  | some rule =>
    refine failsOnly_bind (failsOnly_bestChild fun child hChild => ?_) fun best =>
      failsOnly_bind (failsOnly_bestInjection (hTargets rule hRule)) fun injected =>
        failsOnly_pure _
    obtain ⟨hChildUnknown, hVisit⟩ := hChildren rule hRule child hChild
    exact failsOnly_candidate hPattern hChildUnknown hVisit

end Engine

end GrammarSearch
