import GrammarSearch.Proofs.PlainSearch

/-!
# One search, run in two ways

`Engine.explore` is written once for every monad in which a search can fail, so two runs of it can
only differ in how they weigh selectors and how they visit rules.  A `Congruence` is a relation
between the results of two such monads that single steps satisfy and that sequencing keeps.  Where
weighing and visiting are related, so is exploring: what holds of the steps holds of the search.

A property of searches is a relation between a search and itself, so one that the steps of a search
have and that sequencing keeps is a property of every visit.

## Main results

* `Congruence.explore`: a congruence between visits is one between explorations.
* `Compositional.visit`: a compositional property is one of every visit.
-/

namespace GrammarSearch.Engine

variable {σ : Type} {m n : Type → Type}
variable [Monad m] [MonadExceptOf Failure m] [Monad n] [MonadExceptOf Failure n]

/-- A relation between two ways of running a search: values and failures are related to themselves,
and a second part that is related whatever the value of the first may follow it. -/
structure Congruence (R : (α : Type) → m α → n α → Prop) : Prop where
  pure {α : Type} (value : α) : R α (pure value) (pure value)
  throw {α : Type} (failure : Failure) : R α (throw failure) (throw failure)
  bind {α β : Type} {left : m α} {right : n α} {leftNext : α → m β} {rightNext : α → n β} :
    R α left right → (∀ value, R β (leftNext value) (rightNext value)) →
      R β (left >>= leftNext) (right >>= rightNext)

namespace Congruence

variable {R : (α : Type) → m α → n α → Prop} (hR : Congruence R)
variable {engine : Engine σ} {query : Query}
variable {leftWeigh : Weigh m} {rightWeigh : Weigh n} {leftVisit : Visit m} {rightVisit : Visit n}

include hR

theorem ofExcept {α : Type} (result : Except Failure α) :
    R α (MonadExcept.ofExcept result) (MonadExcept.ofExcept result) := by
  cases result with
  | ok value => exact hR.pure value
  | error failure => exact hR.throw failure

theorem candidate (hVisit : ∀ node priority, R _ (leftVisit node priority)
    (rightVisit node priority)) (priority : Priority) (child : NodeId) :
    R _ (engine.candidate query leftVisit priority child)
      (engine.candidate query rightVisit priority child) := by
  cases hRule : engine.tree.rule? child with
  | none =>
    rw [candidate_of_unknown hRule, candidate_of_unknown hRule]
    exact hR.throw _
  | some rule =>
    rcases rule.kind.cases with ⟨pattern, hPattern⟩ | hClosing | hGroup
    · rw [candidate_of_pattern hRule hPattern, candidate_of_pattern hRule hPattern]
      exact hR.bind (hR.ofExcept _) fun hit => hR.pure _
    · rw [candidate_of_closing hRule hClosing, candidate_of_closing hRule hClosing]
      exact hR.pure _
    · rw [candidate_of_group hRule hGroup, candidate_of_group hRule hGroup]
      exact hVisit child priority

theorem bestChild (hVisit : ∀ node priority, R _ (leftVisit node priority)
    (rightVisit node priority)) (priority : Priority) (best : Outcome) (children : List NodeId) :
    R _ (engine.bestChild query leftVisit priority best children)
      (engine.bestChild query rightVisit priority best children) := by
  induction children generalizing best with
  | nil => exact hR.pure best
  | cons child later ih =>
    rw [Engine.bestChild, Engine.bestChild]
    refine hR.bind (hR.candidate hVisit priority child) ?_
    intro outcome
    dsimp only
    split
    · exact hR.pure _
    · exact ih _

theorem bestInjection (hWeigh : ∀ selector scope, R _ (leftWeigh selector scope)
    (rightWeigh selector scope)) (hVisit : ∀ node priority, R _ (leftVisit node priority)
    (rightVisit node priority)) (best : Outcome) (injections : List Injection) :
    R _ (engine.bestInjection query leftWeigh leftVisit best injections)
      (engine.bestInjection query rightWeigh rightVisit best injections) := by
  induction injections generalizing best with
  | nil => exact hR.pure best
  | cons injection later ih =>
    rw [Engine.bestInjection, Engine.bestInjection]
    refine hR.bind (hWeigh injection.selector query.scope) ?_
    intro weight
    split
    · exact hR.bind (hVisit _ _) fun outcome => ih _
    · exact ih best

/-- A congruence between visits is one between explorations. -/
theorem explore (hWeigh : ∀ selector scope, R _ (leftWeigh selector scope)
    (rightWeigh selector scope)) (hVisit : ∀ node priority, R _ (leftVisit node priority)
    (rightVisit node priority)) (node : NodeId) (priority : Priority) :
    R _ (engine.explore query leftWeigh leftVisit node priority)
      (engine.explore query rightWeigh rightVisit node priority) := by
  unfold Engine.explore
  split
  · exact hR.throw _
  · next rule hRule =>
    refine hR.bind (hR.bestChild hVisit priority _ rule.children) ?_
    intro best
    refine hR.bind (hR.bestInjection hWeigh hVisit _ rule.injections) ?_
    intro injected
    exact hR.pure _

end Congruence

/-! ## Properties of one search -/

/-- A property of searches on the sessions of an engine that single steps have and that sequencing
and remembering keep. -/
structure Compositional (engine : Engine σ) (P : (α : Type) → Search σ α → Prop) : Prop where
  pure {α : Type} (value : α) : P α (pure value)
  throw {α : Type} (failure : Failure) : P α (throw failure)
  bind {α β : Type} {search : Search σ α} {next : α → Search σ β} :
    P α search → (∀ value, P β (next value)) → P β (search >>= next)
  checkToken (token : CancelToken) : P Unit (Search.checkToken token)
  weigh (selector scope : String) : P Weight (engine.weigh selector scope)
  remember (key : SearchKey) {compute : Search σ Outcome} :
    P Outcome compute → P Outcome (Search.remember key compute)

namespace Compositional

variable {engine : Engine σ} {P : (α : Type) → Search σ α → Prop}

theorem congruence (hP : engine.Compositional P) :
    Congruence fun α (search same : Search σ α) => search = same ∧ P α search where
  pure value := ⟨rfl, hP.pure value⟩
  throw failure := ⟨rfl, hP.throw failure⟩
  bind := by
    rintro α β search _ next sameNext ⟨rfl, hSearch⟩ hNext
    have hSame : next = sameNext := funext fun value => (hNext value).1
    exact ⟨by rw [hSame], hP.bind hSearch fun value => (hNext value).2⟩

/-- A compositional property is one of every visit, down to whatever depth. -/
theorem visit (hP : engine.Compositional P) (query : Query) (budget : Nat) (node : NodeId)
    (priority : Priority) : P Outcome (engine.visit query budget node priority) := by
  induction budget generalizing node priority with
  | zero => exact hP.bind (hP.checkToken query.token) fun _ => hP.throw _
  | succ budget ih =>
    have hExplore : P Outcome
        (engine.explore query engine.weigh (engine.visit query budget) node priority) :=
      (hP.congruence.explore (fun selector scope => ⟨rfl, hP.weigh selector scope⟩)
        (fun node priority => ⟨rfl, ih node priority⟩) node priority).2
    exact hP.bind (hP.checkToken query.token) fun _ => hP.remember _ hExplore

end Compositional

end GrammarSearch.Engine
