import GrammarSearch.Proofs.Congruence
import GrammarSearch.Proofs.MemoSoundness

/-!
# A session gives what a search without a memo gives

The plain search with the depth of the options fails where rules lie too deep inside each other.
Every other result is *conclusive*: it stays the same where more depth is allowed, be it an answer
or a failure.  A session gives each conclusive result as it is.  Its memo saves depth and steps, and
the steps saved cannot have failed, since a remembered answer is a plain one and the plain search
has one conclusive result at most.

`Search.Tracks` says of a search in a session that it gives a certain result if that is conclusive,
as long as the token is not cancelled.  It also allows for failures of one's choice, so that a
session with less depth than the plain search can be compared with it too.

## Main results

* `plain_eq_of_le`: a larger budget keeps a conclusive result.
* `tracks_visit`: a visit gives the conclusive results of the plain search, or fails for want of
  depth if it is allowed less.
* `first_eq_plain_of_conclusive`: with the same depth, a session gives exactly the conclusive
  results of the plain search.
-/

namespace GrammarSearch

/-! ## Results that do not depend on the depth -/

/-- A result other than the failure that the depth did not suffice. -/
def Conclusive {α : Type} (result : Except Failure α) : Prop :=
  ∀ node depth, result ≠ .error (.recursionLimit node depth)

namespace Conclusive

variable {α β : Type}

theorem ok (value : α) : Conclusive (.ok value : Except Failure α) := by
  intro node depth h
  contradiction

/-- What comes first in a conclusive search is conclusive. -/
theorem of_bind {first : Except Failure α} {next : α → Except Failure β}
    (h : Conclusive (first >>= next)) : Conclusive first := by
  rintro node depth rfl
  exact h node depth rfl

end Conclusive

/-- The first result is the second one wherever that is conclusive. -/
def Confirms {α : Type} (wide narrow : Except Failure α) : Prop :=
  Conclusive narrow → wide = narrow

theorem Confirms.bind {α β : Type} {wide narrow : Except Failure α}
    {wideNext narrowNext : α → Except Failure β} (h : Confirms wide narrow)
    (hNext : ∀ value, Confirms (wideNext value) (narrowNext value)) :
    Confirms (wide >>= wideNext) (narrow >>= narrowNext) := by
  intro hConclusive
  rw [h hConclusive.of_bind]
  cases narrow with
  | error failure => rfl
  | ok value => exact hNext value hConclusive

namespace Engine

variable {σ : Type} {engine : Engine σ} {weight : String → String → Weight} {query : Query}
variable {node : NodeId} {priority : Priority}

theorem congruence_confirms :
    Congruence (m := Except Failure) (n := Except Failure) fun _ => Confirms where
  pure _ := fun _ => rfl
  throw _ := fun _ => rfl
  bind := Confirms.bind

theorem plain_confirms_of_le {low high : Nat} (hLe : low ≤ high) (node : NodeId)
    (priority : Priority) :
    Confirms (engine.plain weight query high node priority)
      (engine.plain weight query low node priority) := by
  induction low generalizing high node priority with
  | zero =>
    intro hConclusive
    exact absurd rfl (hConclusive node engine.options.maxDepth)
  | succ low ih =>
    obtain ⟨high, rfl⟩ : ∃ n, high = n + 1 := ⟨high - 1, by omega⟩
    exact congruence_confirms.explore (fun _ _ _ => rfl) (ih (by omega)) node priority

/-- A larger budget keeps a conclusive result. -/
theorem plain_eq_of_le {low high : Nat} (hLe : low ≤ high)
    (hConclusive : Conclusive (engine.plain weight query low node priority)) :
    engine.plain weight query high node priority = engine.plain weight query low node priority :=
  plain_confirms_of_le hLe node priority hConclusive

/-- Where the plain search has an answer, it has no other conclusive result with any budget. -/
theorem Yields.eq_of_conclusive {outcome : Outcome}
    (h : engine.Yields weight query node priority outcome) {budget : Nat}
    (hConclusive : Conclusive (engine.plain weight query budget node priority)) :
    engine.plain weight query budget node priority = .ok outcome := by
  obtain ⟨enough, hEnough⟩ := h
  rw [← plain_eq_of_le (Nat.le_max_left budget enough) hConclusive]
  exact plain_of_le (Nat.le_max_right budget enough) hEnough

end Engine

/-! ## Searches that give a result -/

namespace Search

variable {σ α β : Type}

/-- The search keeps an invariant of the session and takes no cancellation back.  If the token is
not cancelled when it ends, it gives the result, should that be conclusive, or else a failure that
is allowed. -/
def Tracks (keeps : Session σ → Prop) (token : CancelToken) (allowed : Failure → Prop)
    (search : Search σ α) (result : Except Failure α) : Prop :=
  ∀ session, keeps session →
    keeps (search.run.run session).2 ∧
    (session.cancelled.holds token = true →
      (search.run.run session).2.cancelled.holds token = true) ∧
    ((search.run.run session).2.cancelled.holds token = false → Conclusive result →
      (search.run.run session).1 = result ∨
        ∃ failure, allowed failure ∧ (search.run.run session).1 = .error failure)

variable {keeps : Session σ → Prop} {token : CancelToken} {allowed : Failure → Prop}

theorem tracks_pure (value : α) :
    Tracks keeps token allowed (pure value : Search σ α) (.ok value) :=
  fun _ hSession => ⟨hSession, id, fun _ _ => Or.inl rfl⟩

theorem tracks_throw (failure : Failure) :
    Tracks keeps token allowed (throw failure : Search σ α) (.error failure) :=
  fun _ hSession => ⟨hSession, id, fun _ _ => Or.inl rfl⟩

theorem tracks_throw_allowed {failure : Failure} (hAllowed : allowed failure)
    (result : Except Failure α) :
    Tracks keeps token allowed (throw failure : Search σ α) result :=
  fun _ hSession => ⟨hSession, id, fun _ _ => Or.inr ⟨failure, hAllowed, rfl⟩⟩

theorem tracks_bind {search : Search σ α} {result : Except Failure α} {next : α → Search σ β}
    {resultNext : α → Except Failure β} (hSearch : Tracks keeps token allowed search result)
    (hNext : ∀ value, Tracks keeps token allowed (next value) (resultNext value)) :
    Tracks keeps token allowed (search >>= next) (result >>= resultNext) := by
  intro session hSession
  obtain ⟨hKept, hStays, hGives⟩ := hSearch session hSession
  rw [run_bind]
  rcases hRun : search.run.run session with ⟨failure | value, after⟩
  · rw [hRun] at hKept hStays hGives
    refine ⟨hKept, hStays, ?_⟩
    intro hToken hConclusive
    rcases hGives hToken hConclusive.of_bind with hSame | ⟨other, hAllowed, hOther⟩
    · left
      rw [← hSame]
      rfl
    · right
      exact ⟨other, hAllowed, congrArg _ (Except.error.inj hOther)⟩
  · rw [hRun] at hKept hStays hGives
    obtain ⟨hNextKept, hNextStays, hNextGives⟩ := hNext value after hKept
    refine ⟨hNextKept, fun h => hNextStays (hStays h), ?_⟩
    intro hToken hConclusive
    -- The token was not cancelled in between either, as nothing takes a cancellation back.
    have hBetween : after.cancelled.holds token = false := by
      rw [Bool.eq_false_iff]
      intro hHolds
      rw [hNextStays hHolds] at hToken
      contradiction
    rcases hGives hBetween hConclusive.of_bind with hSame | ⟨other, -, hOther⟩
    · rw [← hSame] at hConclusive ⊢
      exact hNextGives hToken hConclusive
    · contradiction

theorem congruence_tracks (keeps : Session σ → Prop) (token : CancelToken)
    (allowed : Failure → Prop) :
    Engine.Congruence (m := Search σ) (n := Except Failure)
      fun _ => Tracks keeps token allowed where
  pure := tracks_pure
  throw := tracks_throw
  bind := tracks_bind

/-- Looking at the token and going on gives what going on gives. -/
theorem tracks_checkToken {search : Search σ α} {result : Except Failure α}
    (h : Tracks keeps token allowed search result) :
    Tracks keeps token allowed (checkToken token >>= fun _ => search) result := by
  intro session hSession
  rw [run_bind, run_checkToken]
  by_cases hHolds : session.cancelled.holds token = true
  · rw [if_pos hHolds]
    refine ⟨hSession, id, ?_⟩
    intro hToken
    rw [hHolds] at hToken
    contradiction
  · rw [if_neg hHolds]
    exact h session hSession

theorem tracks_weigh {engine : Engine σ} {weight : String → String → Weight}
    (hAnswers : engine.weigher.Answers weight)
    (hKeeps : ∀ (session : Session σ) (weighing : σ) (cancelled : Cancellations),
      keeps session → keeps { session with weighing, cancelled })
    (selector scope : String) :
    Tracks keeps token allowed (engine.weigh selector scope)
      (Engine.weighBy weight selector scope) := by
  intro session hSession
  rw [run_weigh]
  refine ⟨hKeeps session _ _ hSession, ?_, fun _ _ => ?_⟩
  · intro hHolds
    simp [hHolds]
  · left
    rw [Engine.weighBy, hAnswers]

/-- A question that the memo cannot answer is worked out in a session whose clock has moved on, and
its answer goes through the memo. -/
theorem run_remember_of_find?_eq_none {key : SearchKey} {compute : Search σ Outcome}
    {session : Session σ} (hFind : session.memo.find? key = none) :
    (remember key compute).run.run session =
      match compute.run.run { session with memo := session.memo.tick } with
      | (.error failure, after) => (.error failure, after)
      | (.ok outcome, after) =>
        (.ok (after.memo.store key session.memo.clock outcome).1,
          { after with memo := (after.memo.store key session.memo.clock outcome).2 }) := by
  have hRun : compute.run { session with memo := session.memo.tick } =
      compute.run.run { session with memo := session.memo.tick } := rfl
  rw [run_remember, Memo.fetch, hFind]
  dsimp only
  rw [hRun]
  rcases compute.run.run { session with memo := session.memo.tick } with
    ⟨failure | outcome, after⟩
  · rfl
  · rfl

/-- If every entry of the memo satisfies a relation that pins down the conclusive result of a search
without a memo, then remembering gives the result of that search. -/
theorem tracks_remember {p : SearchKey → Outcome → Prop} {key : SearchKey}
    {compute : Search σ Outcome} {result : Except Failure Outcome}
    (hHit : ∀ outcome, p key outcome → Conclusive result → result = .ok outcome)
    (hMeets : Meets (fun session => session.memo.Holds p) compute (p key))
    (hCompute : Tracks (fun session => session.memo.Holds p) token allowed compute result) :
    Tracks (fun session => session.memo.Holds p) token allowed (remember key compute) result := by
  intro session hSession
  refine ⟨(meets_remember hMeets session hSession).2, ?_⟩
  cases hFind : session.memo.find? key with
  | some outcome =>
    rw [run_remember, Memo.fetch_of_find?_eq_some hFind]
    refine ⟨id, fun _ hConclusive => Or.inl ?_⟩
    exact (hHit outcome (hSession.of_find? hFind) hConclusive).symm
  | none =>
    have hTicked : session.memo.tick.Holds p := hSession.tick
    obtain ⟨hHolds, hStays, hGives⟩ :=
      hCompute { session with memo := session.memo.tick } hTicked
    rw [run_remember_of_find?_eq_none hFind]
    rcases hRun : compute.run.run { session with memo := session.memo.tick } with
      ⟨failure | outcome, after⟩
    · rw [hRun] at hStays hGives
      exact ⟨hStays, hGives⟩
    · rw [hRun] at hHolds hStays hGives
      refine ⟨hStays, fun hToken hConclusive => Or.inl ?_⟩
      rcases hGives hToken hConclusive with hSame | ⟨failure, -, hFailure⟩
      · -- The answer that goes through the memo is the new one or one that was there already.
        have hOutcome := (hMeets { session with memo := session.memo.tick } hTicked).1 outcome
          (by rw [hRun])
        have hStored := (hHolds.store session.memo.clock hOutcome).1
        exact (hHit _ hStored hConclusive).symm
      · contradiction

end Search

/-! ## Visits -/

namespace Engine

variable {σ : Type} {engine : Engine σ} {weight : String → String → Weight} {query : Query}

/-- Visiting with some depth gives the conclusive results of a plain search with at least that
depth, or fails for want of depth where the plain search has more. -/
theorem tracks_visit (hAnswers : engine.weigher.Answers weight) {supply : LineSupply}
    {texts : List String} (hLine : query.line ∈ (supply.lines texts).1) {low high : Nat}
    (hLe : low ≤ high) (node : NodeId) (priority : Priority) :
    Search.Tracks
      (fun session => session.memo.Holds (engine.PlainAnswer weight (supply.lines texts).1))
      query.token
      (fun failure => low < high ∧ ∃ deep, failure = .recursionLimit deep engine.options.maxDepth)
      (engine.visit query low node priority) (engine.plain weight query high node priority) := by
  induction low generalizing high node priority with
  | zero =>
    refine Search.tracks_checkToken ?_
    rcases Nat.eq_zero_or_pos high with rfl | hPos
    · exact Search.tracks_throw _
    · exact Search.tracks_throw_allowed ⟨hPos, node, rfl⟩ _
  | succ low ih =>
    obtain ⟨high, rfl⟩ : ∃ n, high = n + 1 := ⟨high - 1, by omega⟩
    refine Search.tracks_checkToken (Search.tracks_remember
      (p := engine.PlainAnswer weight (supply.lines texts).1) ?_ ?_ ?_)
    · intro outcome hPlain hConclusive
      exact (hPlain.yields hLine).eq_of_conclusive hConclusive
    · have hVisit := meets_visit hAnswers hLine low
      refine (meets_explore hAnswers (fun _ _ _ h => h) hVisit node priority).mono ?_
      intro outcome hYields
      exact ⟨query, hLine, rfl, hYields⟩
    · simp only [Nat.add_lt_add_iff_right]
      refine (Search.congruence_tracks _ _ _).explore ?_ (ih (by omega)) node priority
      exact Search.tracks_weigh hAnswers fun _ _ _ h => h

/-- In every session that a host can reach, a search whose token is not cancelled by its end gives
what a plain search with the depth of the options gives, unless the depth does not suffice for that.
-/
theorem first_eq_plain_of_conclusive (hAnswers : engine.weigher.Answers weight)
    (supply : LineSupply) (texts : List String) {session : Session σ}
    (hReachable : engine.Reachable (supply.lines texts).1 session)
    (hLine : query.line ∈ (supply.lines texts).1) (node : NodeId) (priority : Priority)
    (hToken : ((engine.first query node priority).run.run session).2.cancelled.holds query.token =
      false)
    (hConclusive :
      Conclusive (engine.plain weight query (engine.options.maxDepth + 1) node priority)) :
    ((engine.first query node priority).run.run session).1 =
      engine.plain weight query (engine.options.maxDepth + 1) node priority := by
  have hMemo := hReachable.plainAnswers hAnswers
  obtain ⟨-, -, hGives⟩ :=
    tracks_visit hAnswers hLine (Nat.le_refl (engine.options.maxDepth + 1)) node priority session
      hMemo
  rcases hGives hToken hConclusive with hSame | ⟨failure, ⟨hLess, -⟩, -⟩
  · exact hSame
  · exact absurd hLess (Nat.lt_irrefl _)

/-- A group of an included rule and one whose pattern does not compile. -/
def brokenEngine : Engine Unit where
  tree := .ofRules
    #[{ matchPattern := some ⟨"b"⟩ }, { matchPattern := some ⟨"("⟩ }, { children := [⟨0⟩] },
      { children := [⟨2⟩, ⟨1⟩] }] []
  weigher := .selectors

/-- What a search that fails at the broken pattern leaves: the answer of the included group. -/
def brokenSession : Session Unit :=
  ((brokenEngine.first (noteQuery 0 0 0) ⟨3⟩ .normal).run.run brokenEngine.newSession).2

set_option maxRecDepth 10000 in
/-- A search that answers after one that was cancelled, and one that fails again although the part
that did not fail is remembered. -/
theorem first_eq_plain_after_failures :
    noteEngine.weigher.Answers Selector.weightOf ∧
    noteEngine.Reachable (LineSupply.lines ⟨0⟩ ["ab", "ab"]).1 noteSession ∧
    ((noteEngine.first (noteQuery 0 0 0) ⟨3⟩ .normal).run.run noteSession).1 =
      .ok ⟨⟨0⟩, ⟨[⟨0, 2⟩]⟩, .normal, some ⟨0, "ab"⟩⟩ ∧
    brokenEngine.weigher.Answers Selector.weightOf ∧
    brokenEngine.Reachable (LineSupply.lines ⟨0⟩ ["ab", "ab"]).1 brokenSession ∧
    brokenSession.memo.size = 1 ∧
    ((brokenEngine.first (noteQuery 0 0 0) ⟨3⟩ .normal).run.run brokenSession).1 =
      .error (.invalidPattern "(" "Oniguruma error: end pattern with unmatched parenthesis") := by
  have hNote : noteEngine.plain Selector.weightOf (noteQuery 0 0 0) 257 ⟨3⟩ .normal =
      .ok ⟨⟨0⟩, ⟨[⟨0, 2⟩]⟩, .normal, some ⟨0, "ab"⟩⟩ := rfl
  have hBroken : brokenEngine.plain Selector.weightOf (noteQuery 0 0 0) 257 ⟨3⟩ .normal =
      .error (.invalidPattern "(" "Oniguruma error: end pattern with unmatched parenthesis") := rfl
  have hAnswers : brokenEngine.weigher.Answers Selector.weightOf := Weigher.answers_ofFunction _
  have hReachable : brokenEngine.Reachable (LineSupply.lines ⟨0⟩ ["ab", "ab"]).1 brokenSession :=
    .first .new (by decide) ⟨3⟩ .normal
  refine ⟨noteEngine_answers, noteSession_reachable, ?_, hAnswers, hReachable, rfl, ?_⟩
  · rw [← hNote]
    refine first_eq_plain_of_conclusive noteEngine_answers ⟨0⟩ ["ab", "ab"] noteSession_reachable
      (by decide) ⟨3⟩ .normal rfl ?_
    exact hNote ▸ .ok _
  · rw [← hBroken]
    refine first_eq_plain_of_conclusive hAnswers ⟨0⟩ ["ab", "ab"] hReachable (by decide) ⟨3⟩ .normal
      rfl ?_
    intro node depth h
    exact absurd (hBroken.symm.trans h) (by simp)

end Engine

end GrammarSearch
