import GrammarSearch.Proofs.MemoFreeSearch

/-!
# Searches in step

Two searches in sessions of two engines run in step if they ask the memo the same questions: started
with one memo they leave one memo and give one result, a failure included.  Their weighers may be
asked different questions in between, and so may come into different states and cancel different
tokens.  As nothing takes a cancellation back, it is enough to look at the token of the search when
both have ended.

Searches in step are a `Congruence`, so it is enough to show it of weighing and visiting.
-/

namespace GrammarSearch.Search

variable {σ τ α β : Type}

/-- The search takes no cancellation of the token back. -/
def KeepsCancelled (token : CancelToken) (search : Search σ α) : Prop :=
  ∀ session, session.cancelled.holds token = true →
    (search.run.run session).2.cancelled.holds token = true

/-- Two searches run in step: started with one memo they give one result and leave one memo, unless
the token is cancelled by the end of one of them. -/
structure InStep (token : CancelToken) (left : Search σ α) (right : Search τ α) : Prop where
  left_keeps : KeepsCancelled token left
  right_keeps : KeepsCancelled token right
  same : ∀ session other, session.memo = other.memo →
    (left.run.run session).2.cancelled.holds token = false →
    (right.run.run other).2.cancelled.holds token = false →
    (left.run.run session).1 = (right.run.run other).1 ∧
      (left.run.run session).2.memo = (right.run.run other).2.memo

variable {token : CancelToken}

/-- A token that is not cancelled at the end was not cancelled before. -/
theorem KeepsCancelled.before {search : Search σ α} (h : KeepsCancelled token search)
    {session : Session σ} (hAfter : (search.run.run session).2.cancelled.holds token = false) :
    session.cancelled.holds token = false := by
  rw [Bool.eq_false_iff]
  intro hHolds
  rw [h session hHolds] at hAfter
  contradiction

theorem keepsCancelled_bind {search : Search σ α} {next : α → Search σ β}
    (h : KeepsCancelled token search) (hNext : ∀ value, KeepsCancelled token (next value)) :
    KeepsCancelled token (search >>= next) := by
  intro session hHolds
  have hBetween := h session hHolds
  rw [run_bind]
  rcases hRun : search.run.run session with ⟨failure | value, after⟩
  · rw [hRun] at hBetween
    exact hBetween
  · rw [hRun] at hBetween
    exact hNext value after hBetween

theorem keepsCancelled_remember {key : SearchKey} {compute : Search σ Outcome}
    (h : KeepsCancelled token compute) : KeepsCancelled token (remember key compute) := by
  intro session hHolds
  cases hFind : session.memo.find? key with
  | some outcome =>
    rw [run_remember, Memo.fetch_of_find?_eq_some hFind]
    exact hHolds
  | none =>
    have hBetween := h { session with memo := session.memo.tick } hHolds
    rw [run_remember_of_find?_eq_none hFind]
    rcases hRun : compute.run.run { session with memo := session.memo.tick } with
      ⟨failure | outcome, after⟩
    · rw [hRun] at hBetween
      exact hBetween
    · rw [hRun] at hBetween
      exact hBetween

theorem inStep_pure (value : α) :
    InStep token (pure value : Search σ α) (pure value : Search τ α) where
  left_keeps := fun _ hHolds => hHolds
  right_keeps := fun _ hHolds => hHolds
  same := fun _ _ hMemo _ _ => ⟨rfl, hMemo⟩

theorem inStep_throw (failure : Failure) :
    InStep token (throw failure : Search σ α) (throw failure : Search τ α) where
  left_keeps := fun _ hHolds => hHolds
  right_keeps := fun _ hHolds => hHolds
  same := fun _ _ hMemo _ _ => ⟨rfl, hMemo⟩

theorem inStep_bind {left : Search σ α} {right : Search τ α} {leftNext : α → Search σ β}
    {rightNext : α → Search τ β} (h : InStep token left right)
    (hNext : ∀ value, InStep token (leftNext value) (rightNext value)) :
    InStep token (left >>= leftNext) (right >>= rightNext) where
  left_keeps := keepsCancelled_bind h.left_keeps fun value => (hNext value).left_keeps
  right_keeps := keepsCancelled_bind h.right_keeps fun value => (hNext value).right_keeps
  same := by
    intro session other hMemo hLeft hRight
    have hSame := h.same session other hMemo
    rw [run_bind] at hLeft hRight ⊢
    rw [run_bind]
    generalize left.run.run session = first at hSame hLeft ⊢
    generalize right.run.run other = second at hSame hRight ⊢
    obtain ⟨failure | value, after⟩ := first
    · obtain ⟨second | second, otherAfter⟩ := second
      · obtain ⟨hResult, hAfter⟩ := hSame hLeft hRight
        exact ⟨congrArg _ (Except.error.inj hResult), hAfter⟩
      · obtain ⟨hResult, -⟩ := hSame hLeft ((hNext second).right_keeps.before hRight)
        contradiction
    · obtain ⟨second | second, otherAfter⟩ := second
      · obtain ⟨hResult, -⟩ := hSame ((hNext value).left_keeps.before hLeft) hRight
        contradiction
      · obtain ⟨hResult, hAfter⟩ := hSame ((hNext value).left_keeps.before hLeft)
          ((hNext second).right_keeps.before hRight)
        obtain rfl : value = second := Except.ok.inj hResult
        exact (hNext value).same after otherAfter hAfter hLeft hRight

theorem congruence_inStep (token : CancelToken) :
    Engine.Congruence (m := Search σ) (n := Search τ) fun _ => InStep token where
  pure := inStep_pure
  throw := inStep_throw
  bind := inStep_bind

theorem inStep_checkToken {left : Search σ α} {right : Search τ α}
    (h : InStep token left right) :
    InStep token (checkToken token >>= fun _ => left) (checkToken token >>= fun _ => right) := by
  have hKeeps {υ : Type} : KeepsCancelled token (checkToken token : Search υ Unit) := by
    intro session hHolds
    rw [run_checkToken]
    exact hHolds
  refine inStep_bind ⟨hKeeps, hKeeps, ?_⟩ fun _ => h
  intro session other hMemo hLeft hRight
  rw [run_checkToken] at hLeft ⊢
  rw [run_checkToken] at hRight ⊢
  refine ⟨?_, hMemo⟩
  rw [if_neg, if_neg]
  · rw [hRight]
    exact Bool.false_ne_true
  · rw [hLeft]
    exact Bool.false_ne_true

theorem inStep_remember {key : SearchKey} {left : Search σ Outcome} {right : Search τ Outcome}
    (h : InStep token left right) : InStep token (remember key left) (remember key right) where
  left_keeps := keepsCancelled_remember h.left_keeps
  right_keeps := keepsCancelled_remember h.right_keeps
  same := by
    intro session other hMemo hLeft hRight
    cases hFind : session.memo.find? key with
    | some outcome =>
      have hOther : other.memo.find? key = some outcome := by rw [← hMemo, hFind]
      rw [run_remember, Memo.fetch_of_find?_eq_some hFind, run_remember,
        Memo.fetch_of_find?_eq_some hOther]
      exact ⟨rfl, congrArg (·.touch key) hMemo⟩
    | none =>
      have hOther : other.memo.find? key = none := by rw [← hMemo, hFind]
      have hTicked : session.memo.tick = other.memo.tick := by rw [hMemo]
      have hClock : session.memo.clock = other.memo.clock := by rw [hMemo]
      have hSame := h.same { session with memo := session.memo.tick }
        { other with memo := other.memo.tick } hTicked
      rw [run_remember_of_find?_eq_none hFind] at hLeft ⊢
      rw [run_remember_of_find?_eq_none hOther] at hRight ⊢
      generalize left.run.run { session with memo := session.memo.tick } = first at hSame hLeft ⊢
      generalize right.run.run { other with memo := other.memo.tick } = second at hSame hRight ⊢
      obtain ⟨failure | outcome, after⟩ := first
      · obtain ⟨second | second, otherAfter⟩ := second
        · exact hSame hLeft hRight
        · obtain ⟨hResult, -⟩ := hSame hLeft hRight
          contradiction
      · obtain ⟨second | second, otherAfter⟩ := second
        · obtain ⟨hResult, -⟩ := hSame hLeft hRight
          contradiction
        · obtain ⟨hResult, hAfter⟩ := hSame hLeft hRight
          obtain rfl : outcome = second := Except.ok.inj hResult
          have hStored : after.memo.store key session.memo.clock outcome =
              otherAfter.memo.store key other.memo.clock outcome := by
            rw [show after.memo = otherAfter.memo from hAfter, hClock]
          exact ⟨congrArg (fun stored => Except.ok stored.1) hStored, congrArg Prod.snd hStored⟩

section Weighing

variable {engine : Engine σ} {weight : String → String → Weight}
variable (hAnswers : engine.weigher.Answers weight)

theorem keepsCancelled_weigh (engine : Engine σ) (selector scope : String) :
    KeepsCancelled token (engine.weigh selector scope) := by
  intro session hHolds
  rw [run_weigh]
  simp [hHolds]

include hAnswers

theorem inStep_weigh {other : Engine τ} (hOthers : other.weigher.Answers weight)
    (selector scope : String) :
    InStep token (engine.weigh selector scope) (other.weigh selector scope) where
  left_keeps := keepsCancelled_weigh engine selector scope
  right_keeps := keepsCancelled_weigh other selector scope
  same := by
    intro session otherSession hMemo _ _
    rw [run_weigh, run_weigh]
    refine ⟨?_, hMemo⟩
    rw [hAnswers, hOthers]

/-- A weight that only one side asks for does not bring the searches out of step. -/
theorem inStep_of_weigh {selector scope : String} {next : Weight → Search σ α}
    {right : Search τ α} (hNext : ∀ value, KeepsCancelled token (next value))
    (h : InStep token (next (weight selector scope)) right) :
    InStep token (engine.weigh selector scope >>= next) right where
  left_keeps := keepsCancelled_bind (keepsCancelled_weigh engine selector scope) hNext
  right_keeps := h.right_keeps
  same := by
    intro session other hMemo hLeft hRight
    rw [run_bind, run_weigh, hAnswers] at hLeft ⊢
    exact h.same _ other hMemo hLeft hRight

end Weighing

end GrammarSearch.Search
