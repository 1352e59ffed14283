import GrammarSearch.Proofs.Candidates
import GrammarSearch.Proofs.MemoSoundness

/-!
# Where an answer comes from

An answer is either nothing, said of the very rule that was asked, or the match of one rule.  That
rule is found on a way down from the rule asked: through groups, at the priority of the search, and
through injections, each of which puts the priority of its weight in place of the one before.
`Descent` is such a way, with the injections that it passes; the last of them decides the priority.

Nothing on the way shows in the answer but this.  The merges at every level keep one of two outcomes
as it is, and a remembered answer is what the plain search gives (`Reachable.yields_of_first`), so
it does not matter which call worked it out first, below which rule and how deep.
-/

namespace GrammarSearch.Engine

variable {σ : Type}

/-- A way down that a search can take: to groups among the children of a rule, and to the targets of
its injections that apply. The injections on the way are listed, the last one at the end. -/
inductive Descent (engine : Engine σ) (weight : String → String → Weight) (query : Query)
    (top : NodeId) : List Injection → NodeId → Prop
  | here : Descent engine weight query top [] top
  | group {passed : List Injection} {above child : NodeId} {rule : Rule}
      (before : Descent engine weight query top passed above)
      (hRule : engine.tree.rule? above = some rule) (hChild : child ∈ rule.children)
      (hGroup : engine.isGroup child = true) : Descent engine weight query top passed child
  | injection {passed : List Injection} {above : NodeId} {rule : Rule} {injection : Injection}
      (before : Descent engine weight query top passed above)
      (hRule : engine.tree.rule? above = some rule) (hInjection : injection ∈ rule.injections)
      (hApplies : applies weight query injection = true) :
      Descent engine weight query top (passed ++ [injection]) injection.target

/-- The priority of a search below some injections: that of the last one's weight, or the one that
was searched with. -/
def priorityBelow (weight : String → String → Weight) (query : Query) (priority : Priority)
    (passed : List Injection) : Priority :=
  match passed.getLast? with
  | some injection => (weight injection.selector query.scope).priority
  | none => priority

variable {engine : Engine σ} {weight : String → String → Weight} {query : Query}
variable {node : NodeId} {priority : Priority} {outcome : Outcome}

/-- Below one more injection its weight decides the priority. -/
theorem priorityBelow_append_singleton (passed : List Injection) (injection : Injection) :
    priorityBelow weight query priority (passed ++ [injection]) =
      (weight injection.selector query.scope).priority := by
  simp [priorityBelow]

/-- The rules that a search goes on to are reached by descents, at the priorities these give. -/
theorem exists_descent {place : NodeId × Priority}
    (hPath : Relation.ReflTransGen (fun a b => b ∈ engine.below weight query a) (node, priority)
      place) :
    ∃ passed, engine.Descent weight query node passed place.1 ∧
      place.2 = priorityBelow weight query priority passed := by
  induction hPath with
  | refl => exact ⟨[], .here, rfl⟩
  | @tail above below _ hStep ih =>
    obtain ⟨passed, hDescent, hPriority⟩ := ih
    cases hRule : engine.tree.rule? above.1 with
    | none =>
      have hNone : engine.below weight query above = [] := below_of_unknown hRule
      rw [hNone] at hStep
      contradiction
    | some rule =>
      rcases (mem_below_iff hRule).1 hStep with
        ⟨child, hChild, hGroup, rfl⟩ | ⟨injection, hInjection, hApplies, rfl⟩
      · exact ⟨passed, .group hDescent hRule hChild hGroup, hPriority⟩
      · refine ⟨passed ++ [injection], .injection hDescent hRule hInjection hApplies, ?_⟩
        exact (priorityBelow_append_singleton passed injection).symm

/-- What a search answers in a session that a host can reach is the match of a rule with a pattern,
found at the end of a descent and with the priority of that descent, or else that nothing applies to
the rule asked. -/
theorem answer_is_genuine (hAnswers : engine.weigher.Answers weight) (supply : LineSupply)
    (texts : List String) {session : Session σ}
    (hReachable : engine.Reachable (supply.lines texts).1 session)
    (hLine : query.line ∈ (supply.lines texts).1)
    (hAnswer : ((engine.first query node priority).run.run session).1 = .ok outcome) :
    (outcome.found = true → ∃ passed last above rule pattern,
      engine.Descent weight query node passed last ∧
      engine.tree.rule? last = some above ∧ outcome.rule ∈ above.children ∧
      engine.tree.rule? outcome.rule = some rule ∧
      (rule.kind = .single pattern ∨ rule.kind = .region pattern) ∧
      engine.dialect.search pattern query.line query.offset = .ok outcome.hit ∧
      outcome.source = some query.line ∧
      outcome.priority = priorityBelow weight query priority passed) ∧
    (∀ start, outcome.start? = some start → query.offset ≤ start) ∧
    (outcome.found = false → outcome = .nothing node) := by
  obtain ⟨budget, hPlain⟩ := hReachable.yields_of_first hAnswers hLine hAnswer
  rcases genuine_of_plain budget node priority outcome hPlain with rfl | ⟨hFound, hCandidate⟩
  · refine ⟨?_, ?_, fun _ => rfl⟩
    · intro hFound
      contradiction
    · intro start hStart
      have hNone : (Outcome.nothing node).start? = none := rfl
      rw [hNone] at hStart
      contradiction
  · refine ⟨fun _ => ?_, fun _ hStart => offset_le_of_isCandidate hCandidate hStart, ?_⟩
    · obtain ⟨last, hPath, above, hAbove, child, hChild, hOwn⟩ := hCandidate
      obtain ⟨rule, pattern, hit, hRule, hPattern, hSearch, rfl⟩ := own?_eq_some_iff.1 hOwn
      obtain ⟨passed, hDescent, hPriority⟩ := exists_descent hPath
      exact ⟨passed, last.1, above, rule, pattern, hDescent, hAbove, hChild, hRule,
        RuleKind.eq_of_pattern? hPattern, hSearch, rfl, hPriority⟩
    · intro hMissing
      rw [hFound] at hMissing
      contradiction

set_option maxRecDepth 10000 in
/-- After a search that was cancelled, one that finds the included rule through an injection. -/
theorem answer_through_injection :
    noteEngine.weigher.Answers Selector.weightOf ∧
    noteEngine.Reachable (LineSupply.lines ⟨0⟩ ["ab", "ab"]).1 noteSession ∧
    ((noteEngine.first (noteQuery 1 1 0) ⟨3⟩ .normal).run.run noteSession).1 =
      .ok ⟨⟨1⟩, ⟨[⟨1, 2⟩]⟩, .high, some ⟨1, "ab"⟩⟩ ∧
    ∃ passed last,
      noteEngine.Descent Selector.weightOf (noteQuery 1 1 0) ⟨3⟩ passed last ∧
      priorityBelow Selector.weightOf (noteQuery 1 1 0) .normal passed = .high := by
  have hLine : (noteQuery 1 1 0).line ∈ (LineSupply.lines ⟨0⟩ ["ab", "ab"]).1 := by decide
  have hAnswer : ((noteEngine.first (noteQuery 1 1 0) ⟨3⟩ .normal).run.run noteSession).1 =
      .ok ⟨⟨1⟩, ⟨[⟨1, 2⟩]⟩, .high, some ⟨1, "ab"⟩⟩ := rfl
  obtain ⟨hGenuine, -, -⟩ := answer_is_genuine noteEngine_answers ⟨0⟩ ["ab", "ab"]
    noteSession_reachable hLine hAnswer
  obtain ⟨passed, last, -, -, -, hDescent, -, -, -, -, -, -, hPriority⟩ := hGenuine rfl
  exact ⟨noteEngine_answers, noteSession_reachable, hAnswer, passed, last, hDescent,
    hPriority.symm⟩

end GrammarSearch.Engine
