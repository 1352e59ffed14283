import GrammarSearch.Proofs.MemoBounds
import GrammarSearch.Proofs.MemoFreeSearch
import Mathlib.Algebra.Ring.GeomSum

/-!
# How many visits a search takes

The clock of the memo ticks once for every visit that the depth allows, answered from the memo or
not.  So the ticks of a search count its visits, and `Search.Asks` bounds them whatever the session.
A rule is left for its children and for the targets of its injections, `fanOut` of them at most, so
with a budget of `n` there are at most `fanOut ^ i` visits after `i < n` steps (`asks_visit`).  That
holds of every tree, also where rules contain each other.
-/

namespace GrammarSearch

/-- The number of ways to go on from a rule. -/
def Rule.fanOut (rule : Rule) : Nat :=
  rule.children.length + rule.injections.length

/-- The greatest number of ways to go on from a rule of a tree. -/
def Tree.fanOut (tree : Tree) : Nat :=
  (tree.rules.toList.map Rule.fanOut).max?.getD 0

theorem Tree.fanOut_le {tree : Tree} {node : NodeId} {rule : Rule}
    (hRule : tree.rule? node = some rule) : rule.fanOut ≤ tree.fanOut := by
  apply List.le_max?_getD_of_mem
  apply List.mem_map_of_mem
  exact Array.mem_toList_iff.2 (Array.mem_of_getElem? hRule)

namespace Search

variable {σ α β : Type}

/-- The search takes at most so many ticks of the clock of the memo, whatever the session. -/
def Asks (search : Search σ α) (count : Nat) : Prop :=
  ∀ session, (search.run.run session).2.memo.clock ≤ session.memo.clock + count

theorem Asks.mono {search : Search σ α} {few count : Nat} (h : Asks search few)
    (hLe : few ≤ count) : Asks search count :=
  fun session => Nat.le_trans (h session) (Nat.add_le_add_left hLe _)

theorem asks_pure (value : α) : Asks (pure value : Search σ α) 0 :=
  fun _ => Nat.le_refl _

theorem asks_throw (failure : Failure) : Asks (throw failure : Search σ α) 0 :=
  fun _ => Nat.le_refl _

theorem asks_ofExcept (result : Except Failure α) :
    Asks (MonadExcept.ofExcept result : Search σ α) 0 := by
  cases result with
  | ok value => exact asks_pure value
  | error failure => exact asks_throw failure

theorem asks_bind {search : Search σ α} {next : α → Search σ β} {first second : Nat}
    (h : Asks search first) (hNext : ∀ value, Asks (next value) second) :
    Asks (search >>= next) (first + second) := by
  intro session
  have hFirst := h session
  rw [run_bind]
  rcases hRun : search.run.run session with ⟨failure | value, between⟩
  · rw [hRun] at hFirst
    show between.memo.clock ≤ session.memo.clock + (first + second)
    change between.memo.clock ≤ session.memo.clock + first at hFirst
    omega
  · rw [hRun] at hFirst
    have hSecond := hNext value between
    show ((next value).run.run between).2.memo.clock ≤ session.memo.clock + (first + second)
    change between.memo.clock ≤ session.memo.clock + first at hFirst
    omega

theorem asks_checkToken (token : CancelToken) : Asks (checkToken token : Search σ Unit) 0 := by
  intro session
  rw [run_checkToken]
  exact Nat.le_refl _

theorem asks_weigh (engine : Engine σ) (selector scope : String) :
    Asks (engine.weigh selector scope) 0 := by
  intro session
  rw [run_weigh]
  exact Nat.le_refl _

/-- A question takes a tick of its own, besides those that it takes to work it out. -/
theorem asks_remember {key : SearchKey} {compute : Search σ Outcome} {count : Nat}
    (h : Asks compute count) : Asks (remember key compute) (count + 1) := by
  intro session
  cases hFind : session.memo.find? key with
  | some outcome =>
    rw [run_remember, Memo.fetch_of_find?_eq_some hFind]
    show session.memo.clock + 1 ≤ session.memo.clock + (count + 1)
    omega
  | none =>
    have hCompute := h { session with memo := session.memo.tick }
    change _ ≤ session.memo.clock + 1 + count at hCompute
    rw [run_remember_of_find?_eq_none hFind]
    rcases hRun : compute.run.run { session with memo := session.memo.tick } with
      ⟨failure | outcome, after⟩
    · rw [hRun] at hCompute
      show after.memo.clock ≤ session.memo.clock + (count + 1)
      change after.memo.clock ≤ _ at hCompute
      omega
    · rw [hRun] at hCompute
      show (after.memo.store key session.memo.clock outcome).2.clock ≤ _
      change after.memo.clock ≤ _ at hCompute
      rw [Memo.clock_store]
      omega

end Search

namespace Engine

open Search

variable {σ : Type} {engine : Engine σ} {query : Query} {visit : Visit (Search σ)} {count : Nat}
variable (hVisit : ∀ node priority, Asks (visit node priority) count)

include hVisit

theorem asks_candidate (priority : Priority) (child : NodeId) :
    Asks (engine.candidate query visit priority child) count := by
  cases hRule : engine.tree.rule? child with
  | none =>
    rw [candidate_of_unknown hRule]
    exact (asks_throw _).mono (Nat.zero_le count)
  | some rule =>
    rcases rule.kind.cases with ⟨pattern, hPattern⟩ | hClosing | hGroup
    · rw [candidate_of_pattern hRule hPattern]
      exact (asks_bind (asks_ofExcept _) fun hit => asks_pure _).mono (Nat.zero_le count)
    · rw [candidate_of_closing hRule hClosing]
      exact (asks_pure _).mono (Nat.zero_le count)
    · rw [candidate_of_group hRule hGroup]
      exact hVisit child priority

theorem asks_bestChild (priority : Priority) (best : Outcome) (children : List NodeId) :
    Asks (engine.bestChild query visit priority best children) (children.length * count) := by
  induction children generalizing best with
  | nil => exact (asks_pure best).mono (Nat.zero_le _)
  | cons child later ih =>
    rw [bestChild, List.length_cons, Nat.succ_mul, Nat.add_comm]
    refine asks_bind (asks_candidate hVisit priority child) fun outcome => ?_
    dsimp only
    split
    · exact (asks_pure _).mono (Nat.zero_le _)
    · exact ih _

theorem asks_bestInjection (best : Outcome) (injections : List Injection) :
    Asks (engine.bestInjection query engine.weigh visit best injections)
      (injections.length * count) := by
  induction injections generalizing best with
  | nil => exact (asks_pure best).mono (Nat.zero_le _)
  | cons injection later ih =>
    rw [bestInjection, List.length_cons, Nat.succ_mul, Nat.add_comm]
    refine (asks_bind (asks_weigh engine _ _) fun weight =>
      (?_ : Asks _ (count + later.length * count))).mono (by omega)
    split
    · exact asks_bind (hVisit _ _) fun outcome => ih _
    · exact (ih best).mono (Nat.le_add_left _ _)

theorem asks_explore (node : NodeId) (priority : Priority) :
    Asks (engine.explore query engine.weigh visit node priority) (engine.tree.fanOut * count) := by
  unfold explore
  cases hRule : engine.tree.rule? node with
  | none => exact (asks_throw _).mono (Nat.zero_le _)
  | some rule =>
    have hWays : rule.children.length * count + rule.injections.length * count ≤
        engine.tree.fanOut * count := by
      rw [← Nat.add_mul]
      exact Nat.mul_le_mul_right count (Tree.fanOut_le hRule)
    refine (asks_bind (asks_bestChild hVisit priority _ rule.children) fun best =>
      asks_bind (asks_bestInjection hVisit _ rule.injections) fun injected =>
        asks_pure _).mono ?_
    exact hWays

omit hVisit

/-- With a budget, a visit takes at most as many visits as there are ways to go on from rule to rule
in fewer steps. -/
theorem asks_visit (engine : Engine σ) (query : Query) (budget : Nat) (node : NodeId)
    (priority : Priority) :
    Asks (engine.visit query budget node priority)
      (∑ steps ∈ Finset.range budget, engine.tree.fanOut ^ steps) := by
  induction budget generalizing node priority with
  | zero => exact asks_bind (asks_checkToken _) fun _ => asks_throw _
  | succ budget ih =>
    rw [geom_sum_succ]
    refine (asks_bind (asks_checkToken query.token) fun _ =>
      asks_remember (asks_explore ih node priority)).mono ?_
    exact Nat.le_of_eq (Nat.zero_add _)

end Engine

end GrammarSearch
