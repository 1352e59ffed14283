import GrammarSearch.Proofs.MemoContents
import GrammarSearch.Search.First

/-!
# Rules for searches that keep an invariant

`Search.Meets keeps search p` is a triple for a search that may fail: started in a session that
satisfies `keeps`, it gives only values that satisfy `p`, and it leaves a session that satisfies
`keeps`, also where it fails.  There is one rule for each way in which searches are put together,
and one for the memo, so that a proof about `Engine.visit` never looks at a session.
-/

namespace GrammarSearch.Search

variable {σ α β : Type}

/-- The search keeps an invariant of the session, and the value that it gives, if it gives one,
satisfies a condition. -/
def Meets (keeps : Session σ → Prop) (search : Search σ α) (p : α → Prop) : Prop :=
  ∀ session, keeps session →
    (∀ value, (search.run.run session).1 = .ok value → p value) ∧ keeps (search.run.run session).2

variable {keeps : Session σ → Prop}

theorem Meets.mono {search : Search σ α} {strong p : α → Prop} (h : Meets keeps search strong)
    (hWeak : ∀ value, strong value → p value) : Meets keeps search p := by
  intro session hSession
  obtain ⟨hValue, hKept⟩ := h session hSession
  exact ⟨fun value hRun => hWeak value (hValue value hRun), hKept⟩

theorem meets_pure {p : α → Prop} {value : α} (h : p value) :
    Meets keeps (pure value : Search σ α) p := by
  intro session hSession
  refine ⟨?_, hSession⟩
  intro other hOther
  obtain rfl : value = other := Except.ok.inj hOther
  exact h

theorem meets_throw {p : α → Prop} (failure : Failure) :
    Meets keeps (throw failure : Search σ α) p := by
  intro session hSession
  refine ⟨?_, hSession⟩
  intro value hValue
  have hRun : (Except.error failure : Except Failure α) = .ok value := hValue
  contradiction

theorem meets_ofExcept (result : Except Failure α) :
    Meets keeps (MonadExcept.ofExcept result : Search σ α) (result = .ok ·) := by
  cases result with
  | ok value => exact meets_pure rfl
  | error failure => exact meets_throw failure

/-- The second part of a search runs only where the first gave a value, in the session that it left.
-/
theorem run_bind (search : Search σ α) (next : α → Search σ β) (session : Session σ) :
    (search >>= next).run.run session =
      match search.run.run session with
      | (.ok value, after) => (next value).run.run after
      | (.error failure, after) => (.error failure, after) := by
  change (match search.run.run session with
    | (result, after) => (ExceptT.bindCont next result).run after) = _
  rcases search.run.run session with ⟨failure | value, after⟩
  · rfl
  · rfl

theorem meets_bind {search : Search σ α} {next : α → Search σ β} {first : α → Prop}
    {p : β → Prop} (hSearch : Meets keeps search first)
    (hNext : ∀ value, first value → Meets keeps (next value) p) :
    Meets keeps (search >>= next) p := by
  intro session hSession
  obtain ⟨hFirst, hKept⟩ := hSearch session hSession
  rw [run_bind]
  rcases hRun : search.run.run session with ⟨failure | value, after⟩
  · rw [hRun] at hKept
    exact meets_throw failure after hKept
  · rw [hRun] at hFirst hKept
    exact hNext value (hFirst value rfl) after hKept

/-! ## What the steps of a search do to the session -/

theorem run_checkToken (token : CancelToken) (session : Session σ) :
    (checkToken token : Search σ Unit).run.run session =
      (if session.cancelled.holds token = true then .error .cancelled else .ok (), session) := by
  change (if session.cancelled.holds token = true then throw Failure.cancelled
    else pure () : Search σ Unit).run.run session = _
  split
  · rfl
  · rfl

theorem run_weigh (engine : Engine σ) (selector scope : String) (session : Session σ) :
    (engine.weigh selector scope).run.run session =
      (.ok (engine.weigher.ask selector scope session.weighing).weight,
        { session with
          weighing := (engine.weigher.ask selector scope session.weighing).state
          cancelled := session.cancelled.cancelAll
            (engine.weigher.ask selector scope session.weighing).cancelled }) := rfl

theorem run_remember (key : SearchKey) (compute : Search σ Outcome) (session : Session σ) :
    (remember key compute).run.run session =
      Memo.fetch Session.memo (fun session memo => { session with memo }) key compute.run session :=
  rfl

/-- Looking at a token changes nothing. -/
theorem meets_checkToken (token : CancelToken) :
    Meets keeps (checkToken token : Search σ Unit) fun _ => True := by
  intro session hSession
  rw [run_checkToken]
  exact ⟨fun _ _ => trivial, hSession⟩

/-- A weigher may change its state and cancel tokens, but its weights are those of a function. -/
theorem meets_weigh {engine : Engine σ} {weight : String → String → Weight}
    (hAnswers : engine.weigher.Answers weight)
    (hKeeps : ∀ (session : Session σ) (weighing : σ) (cancelled : Cancellations),
      keeps session → keeps { session with weighing, cancelled })
    (selector scope : String) :
    Meets keeps (engine.weigh selector scope) (· = weight selector scope) := by
  intro session hSession
  rw [run_weigh]
  refine ⟨?_, hKeeps session _ _ hSession⟩
  intro value hValue
  rw [← Except.ok.inj hValue, hAnswers]

/-- If every entry of the memo satisfies a relation, and working an answer out gives only answers
that satisfy it, then remembering gives only such answers and stores only such answers. -/
theorem meets_remember {p : SearchKey → Outcome → Prop} {key : SearchKey}
    {compute : Search σ Outcome}
    (hCompute : Meets (fun session => session.memo.Holds p) compute (p key)) :
    Meets (fun session => session.memo.Holds p) (remember key compute) (p key) := by
  intro session hSession
  rw [run_remember]
  have hRun : ∀ session : Session σ, session.memo.Holds p →
      (compute.run session).2.memo.Holds p ∧
        ∀ value, (compute.run session).1 = .ok value → p key value :=
    fun session hSession => (hCompute session hSession).symm
  exact (Memo.Holds.fetch (fun _ _ => rfl) hRun hSession).symm

end GrammarSearch.Search
