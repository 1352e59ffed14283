import GrammarSearch.Proofs.Candidates
import GrammarSearch.Proofs.MemoSoundness

/-!
# Candidates that a search overlooks

An empty match may win inside a group and then be refused outside it, because it must not take the
place of a real one.  With it go the candidates that it won over, although some of them may beat
what the search answers in the end.

This is the only way to lose a candidate.  Every solid candidate that beats the answer belongs to a
part of the search, a rule visited on the way or the injections of one, that reported an empty match
in its place.  Without such a report no solid candidate beats the answer.

## Main results

* `visitsAccount_plain`: a search finds something where there is a solid candidate, and overlooks
  each one that beats what it finds.
-/

namespace GrammarSearch

namespace Outcome

/-! ## What a merge accounts for -/

/-- The outcome is at least as good as another one: what cannot beat the other one cannot beat it.
-/
def Upholds (outcome other : Outcome) : Prop :=
  other.found = true → outcome.found = true ∧ ∀ c : Outcome, c.beats other = false →
    c.beats outcome = false

/-- The outcome takes another one into account: it found something if the other one did, and the
other one does not beat it unless it is a mere empty match. -/
def Accounts (tree : Tree) (outcome other : Outcome) : Prop :=
  other.found = true → outcome.found = true ∧
    (other.isSolid tree = true → other.beats outcome = false)

variable {tree : Tree} {old new outcome best : Outcome}

theorem Upholds.refl (outcome : Outcome) : Upholds outcome outcome :=
  fun hFound => ⟨hFound, fun _ hBeats => hBeats⟩

theorem Upholds.trans (h : Upholds outcome best) (hBest : Upholds best old) :
    Upholds outcome old := by
  intro hOld
  obtain ⟨hFound, hKept⟩ := hBest hOld
  obtain ⟨hOutcome, hStays⟩ := h hFound
  exact ⟨hOutcome, fun c hBeats => hStays c (hKept c hBeats)⟩

theorem upholds_better (tree : Tree) (old new : Outcome) : Upholds (better tree old new) old := by
  intro hOld
  refine ⟨?_, fun c hBeats => not_beats_better_of_old hOld hBeats⟩
  rw [found_better, hOld, Bool.true_or]

theorem accounts_better (tree : Tree) (old new : Outcome) :
    Accounts tree (better tree old new) new := by
  intro hNew
  refine ⟨?_, fun hSolid => not_beats_better_of_new hNew hSolid (beats_irrefl new)⟩
  rw [found_better, hNew, Bool.or_true]

theorem Accounts.of_upholds (h : Accounts tree best new) (hOutcome : Upholds outcome best) :
    Accounts tree outcome new := by
  intro hNew
  obtain ⟨hBest, hKept⟩ := h hNew
  obtain ⟨hFound, hStays⟩ := hOutcome hBest
  exact ⟨hFound, fun hSolid => hStays new (hKept hSolid)⟩

end Outcome

namespace Engine

variable {σ : Type} {engine : Engine σ} {weight : String → String → Weight} {query : Query}
variable {priority : Priority} {node child : NodeId} {best outcome c : Outcome}
variable {visit : Visit (Except Failure)}

/-! ## What a fold accounts for -/

/-- A fold over children accounts for each of them, or leaves it out because none of its candidates
beats the result. -/
theorem accounts_of_bestChild (weight : String → String → Weight) (hBuilt : engine.tree.Built)
    {children : List NodeId}
    (h : engine.bestChild query visit priority best children = .ok outcome) :
    outcome.Upholds best ∧ ∀ child ∈ children,
      (∃ next, engine.candidate query visit priority child = .ok next ∧
        outcome.Accounts engine.tree next) ∨
      outcome.found = true ∧
        ∀ c, engine.OfChild weight query priority child c → c.beats outcome = false := by
  induction children generalizing best with
  | nil =>
    obtain rfl := bestChild_nil_eq_ok_iff.1 h
    exact ⟨.refl outcome, by simp⟩
  | cons child later ih =>
    obtain ⟨next, hNext, hRest⟩ := bestChild_cons_eq_ok_iff.1 h
    have hOld := Outcome.upholds_better engine.tree best next
    have hNew := Outcome.accounts_better engine.tree best next
    rcases hRest with ⟨hSettles, rfl⟩ | ⟨-, hLater⟩
    · refine ⟨hOld, List.forall_mem_cons.2 ⟨Or.inl ⟨next, hNext, hNew⟩, ?_⟩⟩
      intro sibling hMem
      right
      refine ⟨(Outcome.found_iff _).2 ⟨query.offset, start?_eq_of_settles hSettles⟩, ?_⟩
      intro c hOf
      exact not_beats_of_settles hBuilt hSettles hMem hOf
    · obtain ⟨hUpholds, hSiblings⟩ := ih hLater
      refine ⟨hUpholds.trans hOld, List.forall_mem_cons.2 ⟨Or.inl ⟨next, hNext, ?_⟩, hSiblings⟩⟩
      exact hNew.of_upholds hUpholds

/-- A fold over injections accounts for each one that applies. -/
theorem accounts_of_bestInjection {injections : List Injection}
    (h : engine.bestInjection query (weighBy weight) visit best injections = .ok outcome) :
    outcome.Upholds best ∧ ∀ injection ∈ injections, applies weight query injection = true →
      ∃ next, visit injection.target (weight injection.selector query.scope).priority = .ok next ∧
        outcome.Accounts engine.tree next := by
  induction injections generalizing best with
  | nil =>
    obtain rfl := bestInjection_nil_eq_ok_iff.1 h
    exact ⟨.refl outcome, by simp⟩
  | cons injection later ih =>
    rcases bestInjection_cons_eq_ok_iff.1 h with ⟨-, next, hNext, hLater⟩ | ⟨hSkipped, hLater⟩
    · obtain ⟨hUpholds, hOthers⟩ := ih hLater
      have hOld := Outcome.upholds_better engine.tree best next
      have hNew := Outcome.accounts_better engine.tree best next
      exact ⟨hUpholds.trans hOld,
        List.forall_mem_cons.2 ⟨fun _ => ⟨next, hNext, hNew.of_upholds hUpholds⟩, hOthers⟩⟩
    · obtain ⟨hUpholds, hOthers⟩ := ih hLater
      refine ⟨hUpholds, List.forall_mem_cons.2 ⟨fun hApplies => ?_, hOthers⟩⟩
      rw [applies, hSkipped] at hApplies
      contradiction

/-! ## Parts of a search -/

/-- A part of a search at a place: a rule that it goes on to, or the injections of a rule that it
reaches.  The part reported the first outcome, and the second one is among its candidates. -/
inductive PartReports (engine : Engine σ) (weight : String → String → Weight) (query : Query)
    (place : NodeId × Priority) (reported c : Outcome) : Prop
  | visit (inner : NodeId × Priority)
      (hBelow : Relation.TransGen (fun a b => b ∈ engine.below weight query a) place inner)
      (hYields : engine.Yields weight query inner.1 inner.2 reported)
      (hCandidate : engine.IsCandidate weight query inner c)
  | injections (inner : NodeId × Priority) (rule : Rule) (budget : Nat)
      (hReached : Relation.ReflTransGen (fun a b => b ∈ engine.below weight query a) place inner)
      (hRule : engine.tree.rule? inner.1 = some rule)
      (hBest : engine.bestInjection query (weighBy weight) (engine.plain weight query budget)
        (.nothing inner.1) rule.injections = .ok reported)
      (hCandidate : ∃ injection ∈ rule.injections, engine.OfInjection weight query injection c)

/-- Some part of the search reported a mere empty match that the candidate does not beat, although
the candidate was there to be reported. -/
def Overlooked (engine : Engine σ) (weight : String → String → Weight) (query : Query)
    (place : NodeId × Priority) (c : Outcome) : Prop :=
  ∃ reported, engine.PartReports weight query place reported c ∧ reported.found = true ∧
    reported.isSolid engine.tree = false ∧ c.beats reported = false

theorem Overlooked.head {place next : NodeId × Priority}
    (hNext : next ∈ engine.below weight query place)
    (h : engine.Overlooked weight query next c) : engine.Overlooked weight query place c := by
  obtain ⟨reported, hPart, hMere⟩ := h
  refine ⟨reported, ?_, hMere⟩
  cases hPart with
  | visit inner hBelow hYields hCandidate =>
    exact .visit inner (.head hNext hBelow) hYields hCandidate
  | injections inner rule budget hReached hRule hBest hCandidate =>
    exact .injections inner rule budget (.head hNext hReached) hRule hBest hCandidate

/-- If a candidate beats an outcome that accounts for what a part reported, then it was overlooked
in the part already, or the part reported a mere empty match in its place. -/
theorem overlooked_of_part {place : NodeId × Priority} {reported : Outcome}
    (hPart : engine.PartReports weight query place reported c) (hFound : reported.found = true)
    (hAccounts : outcome.Accounts engine.tree reported)
    (hInside : c.beats reported = true → engine.Overlooked weight query place c)
    (hBeats : c.beats outcome = true) : engine.Overlooked weight query place c := by
  by_cases hWin : c.beats reported = true
  · exact hInside hWin
  · have hReported : reported.beats outcome = true := by
      rcases Outcome.beats_or_beats hBeats hFound with h | h
      · exact absurd h hWin
      · exact h
    refine ⟨reported, hPart, hFound, ?_, Bool.eq_false_iff.2 hWin⟩
    rw [Bool.eq_false_iff]
    intro hSolid
    rw [(hAccounts hFound).2 hSolid] at hReported
    contradiction

/-! ## One search -/

/-- The visits find something where there is a solid candidate, and overlook each one that beats
what they find. -/
def VisitsAccount (engine : Engine σ) (weight : String → String → Weight) (query : Query)
    (visit : Visit (Except Failure)) : Prop :=
  ∀ node priority outcome, visit node priority = .ok outcome →
    ∀ c, engine.IsCandidate weight query (node, priority) c → c.found = true →
      c.isSolid engine.tree = true → outcome.found = true ∧
        (c.beats outcome = true → engine.Overlooked weight query (node, priority) c)

variable {rule : Rule}

/-- A candidate of a child is found, or overlooked inside a group. -/
theorem overlooked_of_child {budget : Nat}
    (hVisit : engine.VisitsAccount weight query (engine.plain weight query budget))
    (hRule : engine.tree.rule? node = some rule) (hChild : child ∈ rule.children) {next : Outcome}
    (hNext : engine.candidate query (engine.plain weight query budget) priority child = .ok next)
    (hAccounts : best.Accounts engine.tree next)
    (hOf : engine.OfChild weight query priority child c) (hFound : c.found = true)
    (hSolid : c.isSolid engine.tree = true) :
    best.found = true ∧
      (c.beats best = true → engine.Overlooked weight query (node, priority) c) := by
  rcases hOf with hOwn | ⟨hGroup, hCandidate⟩
  · rw [candidate_of_own hOwn] at hNext
    obtain rfl := Except.ok.inj hNext
    obtain ⟨hBest, hKept⟩ := hAccounts hFound
    refine ⟨hBest, fun hBeats => ?_⟩
    rw [hKept hSolid] at hBeats
    contradiction
  · obtain ⟨group, hGroupRule, hKind⟩ := isGroup_iff_kind.1 hGroup
    rw [candidate_of_group hGroupRule hKind] at hNext
    obtain ⟨hNextFound, hInside⟩ := hVisit child priority next hNext c hCandidate hFound hSolid
    have hBelow : (child, priority) ∈ engine.below weight query (node, priority) :=
      (mem_below_iff hRule).2 (Or.inl ⟨child, hChild, hGroup, rfl⟩)
    refine ⟨(hAccounts hNextFound).1, overlooked_of_part ?_ hNextFound hAccounts ?_⟩
    · exact .visit (child, priority) (.single hBelow) ⟨budget, hNext⟩ hCandidate
    · exact fun hWin => (hInside hWin).head hBelow

/-- A candidate of an injection is found, or overlooked inside its target. -/
theorem overlooked_of_injection (priority : Priority) {budget : Nat}
    (hVisit : engine.VisitsAccount weight query (engine.plain weight query budget))
    (hRule : engine.tree.rule? node = some rule) {injection : Injection}
    (hInjection : injection ∈ rule.injections) {next : Outcome}
    (hNext : engine.plain weight query budget injection.target
      (weight injection.selector query.scope).priority = .ok next)
    (hAccounts : best.Accounts engine.tree next)
    (hOf : engine.OfInjection weight query injection c) (hFound : c.found = true)
    (hSolid : c.isSolid engine.tree = true) :
    best.found = true ∧
      (c.beats best = true → engine.Overlooked weight query (node, priority) c) := by
  obtain ⟨hApplies, hCandidate⟩ := hOf
  obtain ⟨hNextFound, hInside⟩ := hVisit _ _ next hNext c hCandidate hFound hSolid
  have hBelow : (injection.target, (weight injection.selector query.scope).priority) ∈
      engine.below weight query (node, priority) :=
    (mem_below_iff hRule).2 (Or.inr ⟨injection, hInjection, hApplies, rfl⟩)
  refine ⟨(hAccounts hNextFound).1, overlooked_of_part ?_ hNextFound hAccounts ?_⟩
  · exact .visit _ (.single hBelow) ⟨budget, hNext⟩ hCandidate
  · exact fun hWin => (hInside hWin).head hBelow

theorem visitsAccount_succ (hBuilt : engine.tree.Built) {budget : Nat}
    (hVisit : engine.VisitsAccount weight query (engine.plain weight query budget)) :
    engine.VisitsAccount weight query (engine.plain weight query (budget + 1)) := by
  intro node priority outcome h c hCandidate hFound hSolid
  obtain ⟨rule, best, injected, hRule, hBest, hInjected, rfl⟩ := explore_eq_ok_iff.1 h
  obtain ⟨same, hSame, hOrigin⟩ := isCandidate_iff.1 hCandidate
  obtain rfl : rule = same := by simpa [hRule] using hSame
  have hOld := Outcome.upholds_better engine.tree best injected
  rcases hOrigin with ⟨child, hChild, hOf⟩ | ⟨injection, hInjection, hOf⟩
  · obtain ⟨-, hChildren⟩ := accounts_of_bestChild weight hBuilt hBest
    rcases hChildren child hChild with ⟨next, hNext, hAccounts⟩ | ⟨hBestFound, hLose⟩
    · exact overlooked_of_child hVisit hRule hChild hNext (hAccounts.of_upholds hOld) hOf hFound
        hSolid
    · obtain ⟨hMerged, hKept⟩ := hOld hBestFound
      refine ⟨hMerged, fun hBeats => ?_⟩
      rw [hKept c (hLose c hOf)] at hBeats
      contradiction
  · -- The injections are merged among themselves first, so they are a part of their own.
    obtain ⟨-, hInjections⟩ := accounts_of_bestInjection hInjected
    obtain ⟨next, hNext, hAccounts⟩ := hInjections injection hInjection hOf.1
    have hNew := Outcome.accounts_better engine.tree best injected
    obtain ⟨hInjectedFound, hInside⟩ := overlooked_of_injection priority hVisit hRule hInjection
      hNext hAccounts hOf hFound hSolid
    refine ⟨(hNew hInjectedFound).1, overlooked_of_part ?_ hInjectedFound hNew hInside⟩
    exact .injections (node, priority) rule budget .refl hRule hInjected
      ⟨injection, hInjection, hOf⟩

theorem visitsAccount_plain (hBuilt : engine.tree.Built) (budget : Nat) :
    engine.VisitsAccount weight query (engine.plain weight query budget) := by
  induction budget with
  | zero =>
    intro node priority outcome h
    simp [plain] at h
  | succ budget ih => exact visitsAccount_succ hBuilt ih

/-- A search finds something where there is a solid candidate.  The candidate can beat the answer
only behind an empty match: some part of the search reported a mere empty match in its place, which
the candidate does not beat and which beats the answer too.  Where what a part reported ties with
the candidate, the two beat the answer together or not at all.

A reported match that beats the candidate does not tell: if it starts before both the candidate and
the answer, either of these may be first. -/
theorem beats_answer_only_behind_empty_match (hBuilt : engine.tree.Built)
    (hAnswers : engine.weigher.Answers weight) (supply : LineSupply) (texts : List String)
    {session : Session σ} (hReachable : engine.Reachable (supply.lines texts).1 session)
    (hLine : query.line ∈ (supply.lines texts).1)
    (hAnswer : ((engine.first query node priority).run.run session).1 = .ok outcome)
    (hCandidate : engine.IsCandidate weight query (node, priority) c) (hFound : c.found = true)
    (hSolid : c.isSolid engine.tree = true) :
    outcome.found = true ∧
      (c.beats outcome = true →
        ∃ reported, engine.PartReports weight query (node, priority) reported c ∧
          reported.isSolid engine.tree = false ∧ c.beats reported = false ∧
          reported.beats outcome = true) ∧
      ∀ reported, engine.PartReports weight query (node, priority) reported c →
        reported.found = true → c.beats reported = false → reported.beats c = false →
          (c.beats outcome = true ↔ reported.beats outcome = true) := by
  obtain ⟨budget, hBudget⟩ := hReachable.yields_of_first hAnswers hLine hAnswer
  obtain ⟨hOutcome, hOverlooked⟩ :=
    visitsAccount_plain hBuilt budget node priority outcome hBudget c hCandidate hFound hSolid
  refine ⟨hOutcome, ?_, ?_⟩
  · intro hBeats
    obtain ⟨reported, hPart, hReported, hMere, hNotBeaten⟩ := hOverlooked hBeats
    refine ⟨reported, hPart, hMere, hNotBeaten, ?_⟩
    rcases Outcome.beats_or_beats hBeats hReported with h | h
    · rw [hNotBeaten] at h
      contradiction
    · exact h
  · intro reported _ hReported hNotBeaten hNotAhead
    exact Outcome.beats_iff_of_tie hFound hReported hNotBeaten hNotAhead

/-- The rule 4 tries `b` and then a group of a lookahead and `a`; the rule 5 tries all three itself.
-/
def lookaheadEngine : Engine Unit where
  tree := .ofRules
    #[{ matchPattern := some ⟨"b"⟩ }, { matchPattern := some ⟨"(?=a)"⟩ },
      { matchPattern := some ⟨"a"⟩ }, { children := [⟨1⟩, ⟨2⟩] }, { children := [⟨0⟩, ⟨3⟩] },
      { children := [⟨0⟩, ⟨1⟩, ⟨2⟩] }] []
  weigher := Weigher.selectors

/-- The match of `a`, which is in the group of the rule 4. -/
def realMatch : Outcome :=
  ⟨⟨2⟩, ⟨[⟨0, 1⟩]⟩, .normal, some ⟨0, "ab"⟩⟩

/-- The match of `b`, which the rule 4 answers with. -/
def lateMatch : Outcome :=
  ⟨⟨0⟩, ⟨[⟨1, 2⟩]⟩, .normal, some ⟨0, "ab"⟩⟩

/-- What the lookahead finds, which the group answers with. -/
def emptyMatch : Outcome :=
  ⟨⟨1⟩, ⟨[⟨0, 0⟩]⟩, .normal, some ⟨0, "ab"⟩⟩

theorem isCandidate_realMatch_group :
    lookaheadEngine.IsCandidate Selector.weightOf (noteQuery 0 0 0) (⟨3⟩, .normal) realMatch := by
  refine ⟨(⟨3⟩, .normal), .refl, { children := [⟨1⟩, ⟨2⟩] }, rfl, ⟨2⟩, by decide, ?_⟩
  decide +kernel

theorem isCandidate_realMatch :
    lookaheadEngine.IsCandidate Selector.weightOf (noteQuery 0 0 0) (⟨4⟩, .normal) realMatch := by
  obtain ⟨place, hBelow, hOwn⟩ := isCandidate_realMatch_group
  exact ⟨place, .head (by decide) hBelow, hOwn⟩

theorem partReports_emptyMatch :
    lookaheadEngine.PartReports Selector.weightOf (noteQuery 0 0 0) (⟨4⟩, .normal) emptyMatch
      realMatch :=
  .visit (⟨3⟩, .normal) (.single (by decide)) ⟨1, rfl⟩ isCandidate_realMatch_group

/-- A real match at the offset is passed over for a later one when it is in a group with an empty
match before it, but not when all rules are tried in turn. -/
theorem real_match_lost_in_group :
    ((lookaheadEngine.first (noteQuery 0 0 0) ⟨4⟩ .normal).run.run
      lookaheadEngine.newSession).1 = .ok lateMatch ∧
    lookaheadEngine.IsCandidate Selector.weightOf (noteQuery 0 0 0) (⟨4⟩, .normal) realMatch ∧
    realMatch.found = true ∧ realMatch.isSolid lookaheadEngine.tree = true ∧
    realMatch.beats lateMatch = true ∧
    ((lookaheadEngine.first (noteQuery 0 0 0) ⟨5⟩ .normal).run.run
      lookaheadEngine.newSession).1 = .ok realMatch :=
  ⟨rfl, isCandidate_realMatch, rfl, rfl, rfl, rfl⟩

theorem overlooked_realMatch :
    lookaheadEngine.tree.Built ∧ lookaheadEngine.weigher.Answers Selector.weightOf ∧
    ((lookaheadEngine.first (noteQuery 0 0 0) ⟨4⟩ .normal).run.run
      lookaheadEngine.newSession).1 = .ok lateMatch ∧
    (∃ reported, lookaheadEngine.PartReports Selector.weightOf (noteQuery 0 0 0) (⟨4⟩, .normal)
      reported realMatch ∧ reported.isSolid lookaheadEngine.tree = false ∧
      realMatch.beats reported = false ∧ reported.beats lateMatch = true) ∧
    (realMatch.beats lateMatch = true ↔ emptyMatch.beats lateMatch = true) := by
  have hBuilt : lookaheadEngine.tree.Built := Tree.built_ofRules _ _
  have hAnswers : lookaheadEngine.weigher.Answers Selector.weightOf :=
    Weigher.answers_ofFunction Selector.weightOf
  have hAnswer : ((lookaheadEngine.first (noteQuery 0 0 0) ⟨4⟩ .normal).run.run
      lookaheadEngine.newSession).1 = .ok lateMatch := rfl
  obtain ⟨-, hOnly, hTie⟩ := beats_answer_only_behind_empty_match hBuilt hAnswers ⟨0⟩ ["ab"] .new
    (by decide) hAnswer isCandidate_realMatch rfl rfl
  exact ⟨hBuilt, hAnswers, hAnswer, hOnly rfl, hTie emptyMatch partReports_emptyMatch rfl rfl rfl⟩

end Engine

end GrammarSearch
