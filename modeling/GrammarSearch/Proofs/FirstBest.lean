import GrammarSearch.Proofs.CandidateList
import GrammarSearch.Proofs.MemoSoundness

/-!
# The first best candidate

A search folds outcomes pairwise at every level, merges injections separately, stops early and reads
what it remembers.  Where an empty match is never a mere match, none of this matters: it finds the
first of the candidates that no other one beats.

The invariant is `Reports`: an outcome stands for a list of candidates.  Merging two outcomes stands
for the two lists one after the other (`Reports.append`), and so does the first one alone when
nothing in the second list beats it (`IsFirstBest.append`), which covers the siblings that an early
exit leaves out.
-/

namespace GrammarSearch

/-! ## The best of a list -/

/-- The outcome is the first one of a list that matched and that no other one beats: it beats what
matched before it, and nothing after it beats it. -/
def IsFirstBest (list : List Outcome) (best : Outcome) : Prop :=
  ∃ before after, list = before ++ best :: after ∧ best.found = true ∧
    (∀ c ∈ before, c.found = true → best.beats c = true) ∧ ∀ c ∈ after, c.beats best = false

/-- The outcome stands for a list: it is the first best one, or nothing in the list matched. -/
def Reports (list : List Outcome) (outcome : Outcome) : Prop :=
  IsFirstBest list outcome ∨ outcome.found = false ∧ ∀ c ∈ list, c.found = false

variable {tree : Tree} {list later : List Outcome} {best old new : Outcome}

namespace IsFirstBest

theorem found (h : IsFirstBest list best) : best.found = true := by
  obtain ⟨-, -, -, hFound, -⟩ := h
  exact hFound

theorem mem (h : IsFirstBest list best) : best ∈ list := by
  obtain ⟨before, after, rfl, -⟩ := h
  exact List.mem_append_right _ List.mem_cons_self

/-- Nothing in the list beats the first best one. -/
theorem not_beats (h : IsFirstBest list best) {c : Outcome} (hMem : c ∈ list) :
    c.beats best = false := by
  obtain ⟨before, after, rfl, -, hBefore, hAfter⟩ := h
  rcases List.mem_append.1 hMem with hMem | hMem
  · rcases Bool.eq_false_or_eq_true c.found with hMatched | hMissing
    · exact Outcome.not_beats_of_beats (hBefore c hMem hMatched)
    · exact Outcome.not_beats_of_not_found hMissing
  · rcases List.mem_cons.1 hMem with rfl | hMem
    · exact Outcome.beats_irrefl c
    · exact hAfter c hMem

theorem append (h : IsFirstBest list best) (hLater : ∀ c ∈ later, c.beats best = false) :
    IsFirstBest (list ++ later) best := by
  obtain ⟨before, after, rfl, hFound, hBefore, hAfter⟩ := h
  refine ⟨before, after ++ later, by simp, hFound, hBefore, ?_⟩
  intro c hMem
  rcases List.mem_append.1 hMem with hMem | hMem
  · exact hAfter c hMem
  · exact hLater c hMem

theorem prepend (h : IsFirstBest later best)
    (hEarlier : ∀ c ∈ list, c.found = true → best.beats c = true) :
    IsFirstBest (list ++ later) best := by
  obtain ⟨before, after, rfl, hFound, hBefore, hAfter⟩ := h
  refine ⟨list ++ before, after, by simp, hFound, ?_, hAfter⟩
  intro c hMem
  rcases List.mem_append.1 hMem with hMem | hMem
  · exact hEarlier c hMem
  · exact hBefore c hMem

/-- What beats the first best one beats everything in the list. -/
theorem beats_of_beats (h : IsFirstBest list old) (hBeats : new.beats old = true) {c : Outcome}
    (hMem : c ∈ list) (hFound : c.found = true) : new.beats c = true := by
  rcases Outcome.beats_or_beats hBeats hFound with hNew | hOld
  · exact hNew
  · rw [h.not_beats hMem] at hOld
    contradiction

end IsFirstBest

namespace Reports

theorem nil (hFound : best.found = false) : Reports [] best :=
  Or.inr ⟨hFound, by simp⟩

theorem singleton (outcome : Outcome) : Reports [outcome] outcome := by
  rcases Bool.eq_false_or_eq_true outcome.found with hFound | hFound
  · exact Or.inl ⟨[], [], rfl, hFound, by simp, by simp⟩
  · exact Or.inr ⟨hFound, by simpa using hFound⟩

theorem isFirstBest (h : Reports list best) (hFound : best.found = true) :
    IsFirstBest list best := by
  rcases h with hBest | ⟨hMissing, -⟩
  · exact hBest
  · rw [hFound] at hMissing
    contradiction

theorem found_iff (h : Reports list best) :
    best.found = true ↔ ∃ c ∈ list, c.found = true := by
  constructor
  · intro hFound
    exact ⟨best, (h.isFirstBest hFound).mem, hFound⟩
  · rintro ⟨c, hMem, hFound⟩
    rcases h with hBest | ⟨-, hNone⟩
    · exact hBest.found
    · rw [hNone c hMem] at hFound
      contradiction

/-- Merging stands for the two lists one after the other. -/
theorem append (hOld : Reports list old) (hNew : Reports later new)
    (hSolid : ∀ c ∈ later, c.found = true → c.isSolid tree = true) :
    Reports (list ++ later) (.better tree old new) := by
  rcases hNew with hNew | ⟨hMissing, hNone⟩
  · rcases hOld with hOld | ⟨hMissing, hNone⟩
    · by_cases hBeats : new.beats old = true
      · rw [Outcome.better_of_beats hBeats (hSolid new hNew.mem hNew.found)]
        exact Or.inl (hNew.prepend fun c hMem => hOld.beats_of_beats hBeats hMem)
      · rw [Bool.not_eq_true] at hBeats
        rw [Outcome.better_of_not_beats hOld.found hBeats]
        refine Or.inl (hOld.append ?_)
        intro c hMem
        exact Outcome.not_beats_trans hNew.found (hNew.not_beats hMem) hBeats
    · rw [Outcome.better_of_old_not_found hNew.found hMissing]
      refine Or.inl (hNew.prepend ?_)
      intro c hMem hFound
      rw [hNone c hMem] at hFound
      contradiction
  · rw [Outcome.better_of_not_found hMissing]
    rcases hOld with hOld | ⟨hOldMissing, hOldNone⟩
    · refine Or.inl (hOld.append ?_)
      intro c hMem
      exact Outcome.not_beats_of_not_found (hNone c hMem)
    · refine Or.inr ⟨hOldMissing, ?_⟩
      intro c hMem
      rcases List.mem_append.1 hMem with hMem | hMem
      · exact hOldNone c hMem
      · exact hNone c hMem

end Reports

/-! ## What a search stands for -/

namespace Engine

variable {σ : Type} {engine : Engine σ} {weight : String → String → Weight} {query : Query}
variable {priority : Priority} {node child : NodeId} {outcome : Outcome}
variable {lists : NodeId → Priority → List Outcome} {visit : Visit (Except Failure)}

/-- Every candidate of a list that matched has some text or opens a region. -/
def AllSolid (engine : Engine σ) (list : List Outcome) : Prop :=
  ∀ c ∈ list, c.found = true → c.isSolid engine.tree = true

/-- The visits stand for lists, where these hold no mere empty matches. -/
def VisitsReport (engine : Engine σ) (lists : NodeId → Priority → List Outcome)
    (visit : Visit (Except Failure)) : Prop :=
  ∀ node priority outcome, visit node priority = .ok outcome →
    engine.AllSolid (lists node priority) → Reports (lists node priority) outcome

theorem AllSolid.append_iff {list later : List Outcome} :
    engine.AllSolid (list ++ later) ↔ engine.AllSolid list ∧ engine.AllSolid later :=
  List.forall_mem_append

theorem reports_of_candidate (hVisit : engine.VisitsReport lists visit)
    (hSolid : engine.AllSolid (engine.contributed query lists priority child))
    (h : engine.candidate query visit priority child = .ok outcome) :
    Reports (engine.contributed query lists priority child) outcome := by
  obtain ⟨rule, hRule, ⟨pattern, hit, hPattern, hSearch, rfl⟩ | ⟨hKind, rfl⟩ | ⟨hKind, hGroup⟩⟩ :=
    candidate_eq_ok_iff.1 h
  · have hOwn : engine.own? query priority child =
        some ⟨child, hit, priority, some query.line⟩ :=
      own?_eq_some_iff.2 ⟨rule, pattern, hit, hRule, hPattern, hSearch, rfl⟩
    rw [contributed_of_ne_group hRule (RuleKind.ne_of_pattern? hPattern).2, hOwn]
    exact Reports.singleton _
  · have hOwn : engine.own? query priority child = none := by
      simp [own?, hRule, hKind, RuleKind.pattern?]
    rw [contributed_of_ne_group hRule (by simp [hKind]), hOwn]
    exact Reports.nil rfl
  · rw [contributed_of_group hRule hKind] at hSolid ⊢
    exact hVisit child priority outcome hGroup hSolid

theorem reports_of_bestChild (hBuilt : engine.tree.Built)
    (hLists : ∀ node priority, ∀ c ∈ lists node priority,
      engine.IsCandidate weight query (node, priority) c)
    (hVisit : engine.VisitsReport lists visit) {children : List NodeId}
    (hSolid : engine.AllSolid (children.flatMap (engine.contributed query lists priority)))
    {seen : List Outcome} {best : Outcome} (hBest : Reports seen best)
    (h : engine.bestChild query visit priority best children = .ok outcome) :
    Reports (seen ++ children.flatMap (engine.contributed query lists priority)) outcome := by
  induction children generalizing seen best with
  | nil =>
    obtain rfl := bestChild_nil_eq_ok_iff.1 h
    simpa using hBest
  | cons child later ih =>
    rw [List.flatMap_cons] at hSolid ⊢
    obtain ⟨hSolidChild, hSolidLater⟩ := AllSolid.append_iff.1 hSolid
    obtain ⟨next, hNext, hRest⟩ := bestChild_cons_eq_ok_iff.1 h
    have hMerged := hBest.append (reports_of_candidate hVisit hSolidChild hNext) hSolidChild
    rw [← List.append_assoc]
    rcases hRest with ⟨hSettles, rfl⟩ | ⟨-, hLater⟩
    · have hFound : (Outcome.better engine.tree best next).found = true :=
        (Outcome.found_iff _).2 ⟨query.offset, start?_eq_of_settles hSettles⟩
      refine Or.inl ((hMerged.isFirstBest hFound).append ?_)
      intro c hMem
      obtain ⟨sibling, hSibling, hContributed⟩ := List.mem_flatMap.1 hMem
      exact not_beats_of_settles hBuilt hSettles hSibling
        (ofChild_of_mem_contributed hLists hContributed)
    · exact ih hSolidLater hMerged hLater

theorem reports_of_bestInjection (hVisit : engine.VisitsReport lists visit)
    {injections : List Injection}
    (hSolid : engine.AllSolid ((injections.filter (applies weight query)).flatMap fun injection =>
      lists injection.target (weight injection.selector query.scope).priority))
    {seen : List Outcome} {best : Outcome} (hBest : Reports seen best)
    (h : engine.bestInjection query (weighBy weight) visit best injections = .ok outcome) :
    Reports (seen ++ (injections.filter (applies weight query)).flatMap fun injection =>
      lists injection.target (weight injection.selector query.scope).priority) outcome := by
  induction injections generalizing seen best with
  | nil =>
    obtain rfl := bestInjection_nil_eq_ok_iff.1 h
    simpa using hBest
  | cons injection later ih =>
    rcases bestInjection_cons_eq_ok_iff.1 h with
      ⟨hApplies, next, hNext, hLater⟩ | ⟨hSkipped, hLater⟩
    · have hKept : applies weight query injection = true := hApplies
      rw [List.filter_cons_of_pos hKept, List.flatMap_cons] at hSolid ⊢
      obtain ⟨hSolidTarget, hSolidLater⟩ := AllSolid.append_iff.1 hSolid
      rw [← List.append_assoc]
      have hTarget := hVisit _ _ next hNext hSolidTarget
      exact ih hSolidLater (hBest.append hTarget hSolidTarget) hLater
    · have hDropped : ¬ applies weight query injection = true := by
        rw [Bool.not_eq_true]
        exact hSkipped
      rw [List.filter_cons_of_neg hDropped] at hSolid ⊢
      exact ih hSolid hBest hLater

theorem visitsReport_explore (hBuilt : engine.tree.Built)
    (hLists : ∀ node priority, ∀ c ∈ lists node priority,
      engine.IsCandidate weight query (node, priority) c)
    (hVisit : engine.VisitsReport lists visit) :
    engine.VisitsReport (engine.listed weight query lists)
      (engine.explore query (weighBy weight) visit) := by
  intro node priority outcome h hSolid
  obtain ⟨rule, best, injected, hRule, hBest, hInjected, rfl⟩ := explore_eq_ok_iff.1 h
  simp only [listed, hRule] at hSolid ⊢
  obtain ⟨hSolidChildren, hSolidTargets⟩ := AllSolid.append_iff.1 hSolid
  have hNothing : Reports [] (Outcome.nothing node) := Reports.nil rfl
  have hChildren := reports_of_bestChild hBuilt hLists hVisit hSolidChildren hNothing hBest
  have hTargets := reports_of_bestInjection hVisit hSolidTargets hNothing hInjected
  exact hChildren.append hTargets hSolidTargets

/-- A plain search stands for the list of candidates of its budget. -/
theorem visitsReport_plain (hBuilt : engine.tree.Built) (budget : Nat) :
    engine.VisitsReport (engine.candidatesWithin weight query budget)
      (engine.plain weight query budget) := by
  induction budget with
  | zero =>
    intro node priority outcome h
    simp [plain] at h
  | succ budget ih =>
    exact visitsReport_explore hBuilt (fun _ _ _ => isCandidate_of_mem_candidatesWithin) ih

theorem Yields.reports (hBuilt : engine.tree.Built) (hAcyclic : engine.Acyclic weight query node)
    (hSolid : engine.AllSolid (engine.candidates weight query node priority))
    (h : engine.Yields weight query node priority outcome) :
    Reports (engine.candidates weight query node priority) outcome := by
  obtain ⟨budget, hBudget⟩ := h
  have hWide := plain_of_le (Nat.le_max_left budget engine.tree.size) hBudget
  have hList : engine.candidatesWithin weight query (max budget engine.tree.size) node priority =
      engine.candidates weight query node priority :=
    candidatesWithin_eq_candidates hAcyclic (Nat.le_max_right budget engine.tree.size)
  rw [← hList] at hSolid ⊢
  exact visitsReport_plain hBuilt _ node priority outcome hWide hSolid

/-- Where no rule leads back to itself and no candidate is a mere empty match, a search finds the
first best candidate, or says that nothing applies when no candidate matched. -/
theorem finds_first_best_candidate (hBuilt : engine.tree.Built)
    (hAnswers : engine.weigher.Answers weight) (supply : LineSupply) (texts : List String)
    {session : Session σ} (hReachable : engine.Reachable (supply.lines texts).1 session)
    (hLine : query.line ∈ (supply.lines texts).1) (hAcyclic : engine.Acyclic weight query node)
    (hSolid : engine.AllSolid (engine.candidates weight query node priority))
    (hAnswer : ((engine.first query node priority).run.run session).1 = .ok outcome) :
    (outcome.found = true ↔ ∃ c ∈ engine.candidates weight query node priority, c.found = true) ∧
    (outcome.found = true →
      IsFirstBest (engine.candidates weight query node priority) outcome) ∧
    (outcome.found = false → outcome = .nothing node) := by
  have hYields := hReachable.yields_of_first hAnswers hLine hAnswer
  have hReports := hYields.reports hBuilt hAcyclic hSolid
  refine ⟨hReports.found_iff, hReports.isFirstBest, ?_⟩
  intro hMissing
  obtain ⟨budget, hBudget⟩ := hYields
  rcases genuine_of_plain budget node priority outcome hBudget with hNothing | ⟨hFound, -⟩
  · exact hNothing
  · rw [hMissing] at hFound
    contradiction

/-- The candidates of a rule that includes a group and has it injected as well. -/
def noteCandidates : List Outcome :=
  [⟨⟨1⟩, ⟨[⟨1, 2⟩]⟩, .normal, some ⟨0, "ab"⟩⟩, ⟨⟨0⟩, ⟨[⟨0, 2⟩]⟩, .normal, some ⟨0, "ab"⟩⟩,
    ⟨⟨1⟩, ⟨[⟨1, 2⟩]⟩, .high, some ⟨0, "ab"⟩⟩]

set_option maxRecDepth 10000 in
theorem finds_first_best_note :
    noteEngine.tree.Built ∧ noteEngine.weigher.Answers Selector.weightOf ∧
    noteEngine.Acyclic Selector.weightOf (noteQuery 0 0 0) ⟨3⟩ ∧
    noteEngine.candidates Selector.weightOf (noteQuery 0 0 0) ⟨3⟩ .normal = noteCandidates ∧
    noteEngine.AllSolid noteCandidates ∧
    ((noteEngine.first (noteQuery 0 0 0) ⟨3⟩ .normal).run.run noteEngine.newSession).1 =
      .ok ⟨⟨0⟩, ⟨[⟨0, 2⟩]⟩, .normal, some ⟨0, "ab"⟩⟩ ∧
    IsFirstBest noteCandidates ⟨⟨0⟩, ⟨[⟨0, 2⟩]⟩, .normal, some ⟨0, "ab"⟩⟩ := by
  have hBuilt : noteEngine.tree.Built := Tree.built_ofRules _ _
  have hAcyclic : noteEngine.Acyclic Selector.weightOf (noteQuery 0 0 0) ⟨3⟩ := by
    refine acyclic_of_index_lt ?_
    rintro ⟨index⟩ rule hRule
    match index with
    | 0 | 1 | 2 | 3 =>
      obtain rfl := Option.some.inj hRule
      decide
    | _ + 4 => nomatch hRule
  have hList : noteEngine.candidates Selector.weightOf (noteQuery 0 0 0) ⟨3⟩ .normal =
      noteCandidates := rfl
  have hSolid : noteEngine.AllSolid noteCandidates := by
    unfold AllSolid
    decide
  have hAnswer : ((noteEngine.first (noteQuery 0 0 0) ⟨3⟩ .normal).run.run
      noteEngine.newSession).1 = .ok ⟨⟨0⟩, ⟨[⟨0, 2⟩]⟩, .normal, some ⟨0, "ab"⟩⟩ := rfl
  obtain ⟨-, hBest, -⟩ := finds_first_best_candidate hBuilt noteEngine_answers ⟨0⟩ ["ab", "ab"]
    .new (by decide) hAcyclic hSolid hAnswer
  exact ⟨hBuilt, noteEngine_answers, hAcyclic, hList, hSolid, hAnswer, hBest rfl⟩

end Engine

end GrammarSearch
