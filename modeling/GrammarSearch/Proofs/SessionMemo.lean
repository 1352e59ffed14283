import GrammarSearch.Proofs.Congruence
import GrammarSearch.Proofs.History
import GrammarSearch.Proofs.MemoBounds

/-!
# The memo of a session

A search asks the memo of its session while it works out what it was asked, and gets at it in no
other way.  So whatever a host did with an engine, the memo of its session is one of some moment at
which no question is open, and what holds at every moment holds of it.

## Main results

* `Reachable.leads_memo`: the calls of a host are a run of events on the memo.
* `Reachable.size_memo_le`: a session never holds more answers than the engine's options allow.
-/

namespace GrammarSearch.Engine

open Memo Memo.Moment

variable {σ : Type}

/-- Searches that operate on the memo may follow each other. -/
theorem operates_bind {α β : Type} {search : Search σ α} {next : α → Search σ β}
    (hSearch : Operates Failure Session.memo search.run.run)
    (hNext : ∀ value, Operates Failure Session.memo (next value).run.run) :
    Operates Failure Session.memo (search >>= next).run.run := by
  intro session questions
  have hFirst := hSearch session questions
  rw [Search.run_bind]
  rcases hRun : search.run.run session with ⟨failure | value, after⟩
  · rw [hRun] at hFirst
    exact hFirst
  · rw [hRun] at hFirst
    exact hFirst.trans (hNext value after questions)

theorem operates_throw {α : Type} (failure : Failure) :
    Operates Failure Session.memo (throw failure : Search σ α).run.run :=
  fun _ _ => .refl _

theorem operates_checkToken (token : CancelToken) :
    Operates Failure Session.memo (Search.checkToken token : Search σ Unit).run.run := by
  intro session questions
  rw [Search.run_checkToken]
  exact .refl _

theorem operates_remember (key : SearchKey) {compute : Search σ Outcome}
    (hCompute : Operates Failure Session.memo compute.run.run) :
    Operates Failure Session.memo (Search.remember key compute).run.run := by
  intro session questions
  rw [Search.run_remember]
  exact Operates.fetch (fun _ _ => rfl) key hCompute session questions

/-- Operating on the memo is a property of every visit. -/
theorem compositional_operates (engine : Engine σ) :
    engine.Compositional fun α (search : Search σ α) =>
      Operates Failure Session.memo search.run.run where
  pure _ := fun _ _ => .refl _
  throw := operates_throw
  bind := operates_bind
  checkToken := operates_checkToken
  weigh selector scope := by
    intro session questions
    rw [Search.run_weigh]
    exact .refl _
  remember := operates_remember

/-- The calls of a host are a run of events on the memo, after which no question is open. -/
theorem Reachable.leads_memo {engine : Engine σ} {lines : List Line} {session : Session σ}
    (hReachable : engine.Reachable lines session) :
    Leads Failure (start engine.options.cacheCapacity) ⟨session.memo, []⟩ := by
  induction hReachable with
  | new => exact .refl _
  | first _ _ node priority ih =>
    exact ih.trans ((compositional_operates engine).visit _ _ node priority _ [])
  | @closing session _ opened line offset ih =>
    have hClosing : Search.Meets (fun after => after.memo = session.memo)
        (engine.closing opened line offset) fun _ => True :=
      meets_closing (fun _ _ hAfter => hAfter) opened line offset
    have hSame := (hClosing session rfl).2
    rw [hSame]
    exact ih
  | clear _ ih => exact ih.trans (leads_next _ .clear)
  | cancel _ _ ih => exact ih

/-- A session never holds more answers than the engine's options allow. -/
theorem Reachable.size_memo_le {engine : Engine σ} {lines : List Line} {session : Session σ}
    (hReachable : engine.Reachable lines session) :
    session.memo.size ≤ engine.options.cacheCapacity := by
  have hLeads := hReachable.leads_memo
  have hOrdered := hLeads.ordered (ordered_start _)
  obtain ⟨events, hRun⟩ := hLeads
  have hCapacity := capacity_run (start engine.options.cacheCapacity) events
  rw [hRun] at hCapacity
  have hSize : session.memo.size ≤ session.memo.capacity := hOrdered.size_le
  exact Nat.le_trans hSize (Nat.le_of_eq hCapacity)

end GrammarSearch.Engine
