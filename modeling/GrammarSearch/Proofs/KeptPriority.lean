import GrammarSearch.Proofs.Candidates
import GrammarSearch.Proofs.MemoSoundness

/-!
# Groups that keep the priority

A group without a flag has no injections below it, at whatever depth, so all candidates below it
have the priority of the search (`priority_eq_of_isCandidate`).  A search only ever answers with
such a candidate, or says that nothing applies, also where the answer was remembered: an answer that
is kept under a priority was found with that priority.

What a child contributes is asked for in the middle of a search, when the memo has questions open
and the weigher may have been asked.  `Underway` holds of these sessions, and every answer that they
remember is still a plain one (`Underway.plainAnswers`).
-/

namespace GrammarSearch.Engine

variable {σ : Type} {engine : Engine σ} {weight : String → String → Weight} {query : Query}
variable {priority : Priority} {node child : NodeId} {answer : Outcome}

/-- The sessions in which a search goes on: those that a host reaches, and those that opening a
question, asking the weigher and visiting a rule within any budget lead to. -/
inductive Underway (engine : Engine σ) (lines : List Line) : Session σ → Prop
  | reached {session : Session σ} (h : engine.Reachable lines session) :
      Underway engine lines session
  | opened {session : Session σ} (before : Underway engine lines session) :
      Underway engine lines { session with memo := session.memo.tick }
  | weighed {session : Session σ} (before : Underway engine lines session)
      (selector scope : String) :
      Underway engine lines ((engine.weigh selector scope).run.run session).2
  | visited {session : Session σ} (before : Underway engine lines session) {query : Query}
      (hLine : query.line ∈ lines) (budget : Nat) (node : NodeId) (priority : Priority) :
      Underway engine lines ((engine.visit query budget node priority).run.run session).2

/-- Every answer that is remembered while a search goes on is a plain one. -/
theorem Underway.plainAnswers (hAnswers : engine.weigher.Answers weight) {supply : LineSupply}
    {texts : List String} {session : Session σ}
    (h : engine.Underway (supply.lines texts).1 session) :
    session.memo.Holds (engine.PlainAnswer weight (supply.lines texts).1) := by
  induction h with
  | reached hReachable => exact hReachable.plainAnswers hAnswers
  | opened _ ih => exact ih.tick
  | weighed _ selector scope ih => exact ih
  | visited _ hLine budget node priority ih =>
    exact (meets_visit hAnswers hLine budget node priority _ ih).2

/-- What the plain search finds below a group without a flag has the priority of the search. -/
theorem Yields.priority_eq (hBuilt : engine.tree.Built)
    (h : engine.Yields weight query node priority answer) (hGroup : engine.isGroup node = true)
    (hFlag : engine.tree.mayRaisePriority node = false) (hFound : answer.found = true) :
    answer.priority = priority := by
  obtain ⟨budget, hPlain⟩ := h
  rcases genuine_of_plain budget node priority answer hPlain with rfl | ⟨-, hCandidate⟩
  · rw [Outcome.found_nothing] at hFound
    contradiction
  · exact priority_eq_of_isCandidate hBuilt hGroup hFlag hCandidate

/-- So has what a child without a flag contributes. -/
theorem priority_eq_of_candidate (hBuilt : engine.tree.Built)
    (hFlag : engine.tree.mayRaisePriority child = false) {budget : Nat}
    (h : engine.candidate query (engine.plain weight query budget) priority child = .ok answer) :
    answer.found = false ∨ answer.priority = priority := by
  obtain ⟨rule, hRule, ⟨pattern, hit, -, -, rfl⟩ | ⟨-, rfl⟩ | ⟨hKind, hVisit⟩⟩ :=
    candidate_eq_ok_iff.1 h
  · exact Or.inr rfl
  · exact Or.inl rfl
  · have hGroup : engine.isGroup child = true := isGroup_iff_kind.2 ⟨rule, hRule, hKind⟩
    rcases Bool.eq_false_or_eq_true answer.found with hFound | hMissing
    · exact Or.inr (Yields.priority_eq hBuilt ⟨budget, hVisit⟩ hGroup hFlag hFound)
    · exact Or.inl hMissing

/-- Whatever a search of a group without a flag finds has the priority of the search, and so has
whatever a child without a flag contributes in the middle of a search. -/
theorem unflagged_group_keeps_priority (hBuilt : engine.tree.Built)
    (hAnswers : engine.weigher.Answers weight) (supply : LineSupply) (texts : List String)
    (hLine : query.line ∈ (supply.lines texts).1) (priority : Priority) :
    (∀ session, engine.Reachable (supply.lines texts).1 session →
      ∀ node, engine.isGroup node = true → engine.tree.mayRaisePriority node = false →
      ∀ answer, ((engine.first query node priority).run.run session).1 = .ok answer →
        answer.found = true → answer.priority = priority) ∧
    ∀ session, engine.Underway (supply.lines texts).1 session →
      ∀ child, engine.tree.mayRaisePriority child = false →
      ∀ budget answer,
        ((engine.candidate query (engine.visit query budget) priority child).run.run session).1 =
          .ok answer → answer.found = false ∨ answer.priority = priority := by
  constructor
  · intro session hReachable node hGroup hFlag answer hAnswer hFound
    have hYields := hReachable.yields_of_first hAnswers hLine hAnswer
    exact hYields.priority_eq hBuilt hGroup hFlag hFound
  · intro session hUnderway child hFlag budget answer hAnswer
    have hCandidate := meets_candidate (meets_visit hAnswers hLine budget) priority child session
      (hUnderway.plainAnswers hAnswers)
    obtain ⟨enough, hPlain⟩ := hCandidate.1 answer hAnswer
    exact priority_eq_of_candidate hBuilt hFlag hPlain

set_option maxRecDepth 10000 in
/-- The group that is included and injected has no flag, unlike the one that includes it.  A
cancelled search remembers its answer of normal priority, and a search of low priority gives one of
low priority. -/
theorem unflagged_group_keeps_low_priority :
    noteEngine.tree.Built ∧ noteEngine.weigher.Answers Selector.weightOf ∧
    (noteQuery 0 0 0).line ∈ (LineSupply.lines ⟨0⟩ ["ab", "ab"]).1 ∧
    noteEngine.Reachable (LineSupply.lines ⟨0⟩ ["ab", "ab"]).1 noteSession ∧
    noteEngine.isGroup ⟨2⟩ = true ∧ noteEngine.tree.mayRaisePriority ⟨2⟩ = false ∧
    noteEngine.tree.mayRaisePriority ⟨3⟩ = true ∧
    (∃ answer, ((noteEngine.first (noteQuery 0 0 0) ⟨2⟩ .low).run.run noteSession).1 =
      .ok answer ∧ answer.found = true ∧ answer.priority = .low) ∧
    ∀ budget answer,
      ((noteEngine.candidate (noteQuery 0 0 0) (noteEngine.visit (noteQuery 0 0 0) budget) .low
        ⟨2⟩).run.run ((noteEngine.weigh "L:comment" "comment").run.run noteSession).2).1 =
          .ok answer → answer.found = false ∨ answer.priority = .low := by
  have hBuilt : noteEngine.tree.Built := Tree.built_ofRules _ _
  have hLine : (noteQuery 0 0 0).line ∈ (LineSupply.lines ⟨0⟩ ["ab", "ab"]).1 := by decide
  have hGroup : noteEngine.isGroup ⟨2⟩ = true := by decide +kernel
  have hFlag : noteEngine.tree.mayRaisePriority ⟨2⟩ = false := by decide +kernel
  obtain ⟨hFirst, hChild⟩ :=
    unflagged_group_keeps_priority hBuilt noteEngine_answers ⟨0⟩ ["ab", "ab"] hLine .low
  refine ⟨hBuilt, noteEngine_answers, hLine, noteSession_reachable, hGroup, hFlag,
    by decide +kernel, ⟨_, rfl, rfl, ?_⟩, ?_⟩
  · exact hFirst _ noteSession_reachable ⟨2⟩ hGroup hFlag _ rfl rfl
  · exact hChild _ (.weighed (.reached noteSession_reachable) "L:comment" "comment") ⟨2⟩ hFlag

end GrammarSearch.Engine
