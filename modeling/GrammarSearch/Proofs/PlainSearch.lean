import GrammarSearch.Search.First

/-!
# Searching without a memo

The plain search visits rules by the same `explore` as a real one, but every visit starts afresh: no
memo, no token, and weights that are a function of selector and scope path.  A budget bounds how
many rules are visited inside each other.  It only ever turns an answer into a failure, so `Yields`,
which leaves the budget open, is the search without any limit, and it has at most one answer.

The lemmas `candidate_eq_ok_iff` to `explore_eq_ok_iff` say everything that a successful plain step
can have done; the proofs about searches go through them and not through the definitions.

## Main results

* `plain_of_le`: a larger budget keeps an answer.
* `Yields.unique`: the plain search has at most one answer.
-/

namespace GrammarSearch

/-- The pattern of a child of this kind, if it is matched by a pattern. -/
def RuleKind.pattern? : RuleKind → Option Pattern
  | .single pattern | .region pattern => some pattern
  | .closing | .group => none

theorem RuleKind.ne_of_pattern? {kind : RuleKind} {pattern : Pattern}
    (h : kind.pattern? = some pattern) : kind ≠ .closing ∧ kind ≠ .group := by
  constructor <;> rintro rfl <;> contradiction

theorem RuleKind.eq_of_pattern? {kind : RuleKind} {pattern : Pattern}
    (h : kind.pattern? = some pattern) : kind = .single pattern ∨ kind = .region pattern := by
  cases kind with
  | single own => exact Or.inl (congrArg RuleKind.single (Option.some.inj h))
  | region own => exact Or.inr (congrArg RuleKind.region (Option.some.inj h))
  | closing => contradiction
  | group => contradiction

theorem RuleKind.cases (kind : RuleKind) :
    (∃ pattern, kind.pattern? = some pattern) ∨ kind = .closing ∨ kind = .group := by
  cases kind <;> simp [pattern?]

private theorem Except.bind_eq_ok_iff {ε α β : Type} {x : Except ε α} {f : α → Except ε β} {b : β} :
    (x >>= f) = .ok b ↔ ∃ a, x = .ok a ∧ f a = .ok b := by
  cases x with
  | error e => simp [bind, Except.bind]
  | ok a => simp [bind, Except.bind]

namespace Engine

variable {σ : Type}

/-- Weights that depend on selector and scope path only. -/
def weighBy (weight : String → String → Weight) : Weigh (Except Failure) :=
  fun selector scope => .ok (weight selector scope)

/-- Visits a rule afresh while there is budget left. -/
def plain (engine : Engine σ) (weight : String → String → Weight) (query : Query) :
    (budget : Nat) → Visit (Except Failure)
  | 0 => fun node _ => .error (.recursionLimit node engine.options.maxDepth)
  | budget + 1 => engine.explore query (weighBy weight) (engine.plain weight query budget)

/-- What the plain search without any limit gives for a rule searched with a priority. -/
def Yields (engine : Engine σ) (weight : String → String → Weight) (query : Query) (node : NodeId)
    (priority : Priority) (outcome : Outcome) : Prop :=
  ∃ budget, engine.plain weight query budget node priority = .ok outcome

variable {engine : Engine σ} {weight : String → String → Weight} {query : Query}
variable {priority : Priority} {best outcome : Outcome}

/-! ## What a child contributes, by kind -/

section Kinds

variable {m : Type → Type} [Monad m] [MonadExceptOf Failure m] {visit : Visit m}
variable {child : NodeId} {rule : Rule}

theorem candidate_of_unknown (hRule : engine.tree.rule? child = none) :
    engine.candidate query visit priority child = throw (.unknownNode child) := by
  rw [candidate, hRule]

theorem candidate_of_pattern (hRule : engine.tree.rule? child = some rule) {pattern : Pattern}
    (hPattern : rule.kind.pattern? = some pattern) :
    engine.candidate query visit priority child = do
      let hit ← ofExcept (engine.dialect.search pattern query.line query.offset)
      return ⟨child, hit, priority, some query.line⟩ := by
  cases hKind : rule.kind with
  | single other =>
    obtain rfl : other = pattern := by simpa [hKind, RuleKind.pattern?] using hPattern
    simp only [candidate, hRule, hKind]
  | region other =>
    obtain rfl : other = pattern := by simpa [hKind, RuleKind.pattern?] using hPattern
    simp only [candidate, hRule, hKind]
  | closing => simp [hKind, RuleKind.pattern?] at hPattern
  | group => simp [hKind, RuleKind.pattern?] at hPattern

theorem candidate_of_closing (hRule : engine.tree.rule? child = some rule)
    (hKind : rule.kind = .closing) :
    engine.candidate query visit priority child = pure (.nothing child) := by
  simp only [candidate, hRule, hKind]

theorem candidate_of_group (hRule : engine.tree.rule? child = some rule)
    (hKind : rule.kind = .group) :
    engine.candidate query visit priority child = visit child priority := by
  simp only [candidate, hRule, hKind]

end Kinds

/-! ## What a successful step did -/

variable {visit : Visit (Except Failure)}

theorem candidate_eq_ok_iff {child : NodeId} :
    engine.candidate query visit priority child = .ok outcome ↔
      ∃ rule, engine.tree.rule? child = some rule ∧
        ((∃ pattern hit, rule.kind.pattern? = some pattern ∧
            engine.dialect.search pattern query.line query.offset = .ok hit ∧
            outcome = ⟨child, hit, priority, some query.line⟩) ∨
          (rule.kind = .closing ∧ outcome = .nothing child) ∨
          (rule.kind = .group ∧ visit child priority = .ok outcome)) := by
  cases hRule : engine.tree.rule? child with
  | none => simp [candidate_of_unknown hRule, throw, throwThe, MonadExceptOf.throw]
  | some rule =>
    simp only [Option.some.injEq, exists_eq_left']
    rcases rule.kind.cases with ⟨pattern, hPattern⟩ | hClosing | hGroup
    · obtain ⟨hNotClosing, hNotGroup⟩ := RuleKind.ne_of_pattern? hPattern
      rw [candidate_of_pattern hRule hPattern, Except.bind_eq_ok_iff]
      simp only [hPattern, hNotClosing, hNotGroup, Option.some.injEq, exists_and_left, false_and,
        or_false, exists_eq_left']
      cases engine.dialect.search pattern query.line query.offset with
      | error failure => simp [ofExcept, throw, throwThe, MonadExceptOf.throw]
      | ok hit =>
        simp only [ofExcept, pure, Except.pure, Except.ok.injEq, exists_eq_left']
        exact eq_comm
    · rw [candidate_of_closing hRule hClosing]
      simp only [hClosing, RuleKind.pattern?, reduceCtorEq, false_and, exists_const, true_and,
        or_false, false_or, pure, Except.pure, Except.ok.injEq]
      exact eq_comm
    · rw [candidate_of_group hRule hGroup]
      simp [hGroup, RuleKind.pattern?]

theorem bestChild_nil_eq_ok_iff :
    engine.bestChild query visit priority best [] = .ok outcome ↔ outcome = best :=
  ⟨fun h => (Except.ok.inj h).symm, fun h => h ▸ rfl⟩

theorem bestChild_cons_eq_ok_iff {child : NodeId} {later : List NodeId} :
    engine.bestChild query visit priority best (child :: later) = .ok outcome ↔
      ∃ next, engine.candidate query visit priority child = .ok next ∧
        ((engine.settles query priority (.better engine.tree best next) later = true ∧
            outcome = .better engine.tree best next) ∨
          (engine.settles query priority (.better engine.tree best next) later = false ∧
            engine.bestChild query visit priority (.better engine.tree best next) later =
              .ok outcome)) := by
  rw [bestChild, Except.bind_eq_ok_iff]
  refine exists_congr fun next => and_congr_right fun _ => ?_
  dsimp only
  split
  · next hSettles =>
    simp only [hSettles, true_and, Bool.true_eq_false, false_and, or_false]
    exact ⟨fun h => (Except.ok.inj h).symm, fun h => h ▸ rfl⟩
  · next hSettles => simp [hSettles]

theorem bestInjection_nil_eq_ok_iff :
    engine.bestInjection query (weighBy weight) visit best [] = .ok outcome ↔ outcome = best :=
  ⟨fun h => (Except.ok.inj h).symm, fun h => h ▸ rfl⟩

theorem bestInjection_cons_eq_ok_iff {injection : Injection} {later : List Injection} :
    engine.bestInjection query (weighBy weight) visit best (injection :: later) = .ok outcome ↔
      ((weight injection.selector query.scope).applies = true ∧
        ∃ next, visit injection.target (weight injection.selector query.scope).priority = .ok next ∧
          engine.bestInjection query (weighBy weight) visit (.better engine.tree best next) later =
            .ok outcome) ∨
      ((weight injection.selector query.scope).applies = false ∧
        engine.bestInjection query (weighBy weight) visit best later = .ok outcome) := by
  rw [bestInjection, weighBy, Except.bind_eq_ok_iff]
  simp only [Except.ok.injEq, exists_eq_left']
  split
  · next hApplies =>
    simp only [hApplies, true_and, Bool.true_eq_false, false_and, or_false]
    exact Except.bind_eq_ok_iff
  · next hApplies => simp [hApplies]

theorem explore_eq_ok_iff {node : NodeId} :
    engine.explore query (weighBy weight) visit node priority = .ok outcome ↔
      ∃ rule best injected, engine.tree.rule? node = some rule ∧
        engine.bestChild query visit priority (.nothing node) rule.children = .ok best ∧
        engine.bestInjection query (weighBy weight) visit (.nothing node) rule.injections =
          .ok injected ∧
        outcome = .better engine.tree best injected := by
  unfold explore
  cases hRule : engine.tree.rule? node with
  | none => simp [throw, throwThe, MonadExceptOf.throw]
  | some rule =>
    simp only [Except.bind_eq_ok_iff, Option.some.injEq, exists_and_left, exists_eq_left']
    refine exists_congr fun best => and_congr_right fun _ => exists_congr fun injected =>
      and_congr_right fun _ => ?_
    exact ⟨fun h => (Except.ok.inj h).symm, fun h => h ▸ rfl⟩

/-! ## Budgets -/

/-- A visit that gives every answer of another one, and possibly more. -/
def Extends (wide visit : Visit (Except Failure)) : Prop :=
  ∀ node priority outcome, visit node priority = .ok outcome → wide node priority = .ok outcome

variable {wide : Visit (Except Failure)}

theorem candidate_of_extends (hWide : Extends wide visit) {child : NodeId}
    (h : engine.candidate query visit priority child = .ok outcome) :
    engine.candidate query wide priority child = .ok outcome := by
  obtain ⟨rule, hRule, hKind⟩ := candidate_eq_ok_iff.1 h
  refine candidate_eq_ok_iff.2 ⟨rule, hRule, ?_⟩
  rcases hKind with hOwn | hClosing | ⟨hGroup, hVisit⟩
  · exact Or.inl hOwn
  · exact Or.inr (Or.inl hClosing)
  · exact Or.inr (Or.inr ⟨hGroup, hWide child priority outcome hVisit⟩)

theorem bestChild_of_extends (hWide : Extends wide visit) {children : List NodeId}
    (h : engine.bestChild query visit priority best children = .ok outcome) :
    engine.bestChild query wide priority best children = .ok outcome := by
  induction children generalizing best with
  | nil => exact h
  | cons child later ih =>
    obtain ⟨next, hNext, hRest⟩ := bestChild_cons_eq_ok_iff.1 h
    refine bestChild_cons_eq_ok_iff.2 ⟨next, candidate_of_extends hWide hNext, ?_⟩
    rcases hRest with hSettled | ⟨hOpen, hLater⟩
    · exact Or.inl hSettled
    · exact Or.inr ⟨hOpen, ih hLater⟩

theorem bestInjection_of_extends (hWide : Extends wide visit) {injections : List Injection}
    (h : engine.bestInjection query (weighBy weight) visit best injections = .ok outcome) :
    engine.bestInjection query (weighBy weight) wide best injections = .ok outcome := by
  induction injections generalizing best with
  | nil => exact h
  | cons injection later ih =>
    rw [bestInjection_cons_eq_ok_iff] at h ⊢
    rcases h with ⟨hApplies, next, hNext, hLater⟩ | ⟨hSkipped, hLater⟩
    · exact Or.inl ⟨hApplies, next, hWide _ _ _ hNext, ih hLater⟩
    · exact Or.inr ⟨hSkipped, ih hLater⟩

theorem explore_of_extends (hWide : Extends wide visit) :
    Extends (engine.explore query (weighBy weight) wide)
      (engine.explore query (weighBy weight) visit) := by
  intro node priority outcome h
  obtain ⟨rule, best, injected, hRule, hBest, hInjected, hOutcome⟩ := explore_eq_ok_iff.1 h
  exact explore_eq_ok_iff.2 ⟨rule, best, injected, hRule, bestChild_of_extends hWide hBest,
    bestInjection_of_extends hWide hInjected, hOutcome⟩

theorem plain_extends_of_le {low high : Nat} (hLe : low ≤ high) :
    Extends (engine.plain weight query high) (engine.plain weight query low) := by
  induction low generalizing high with
  | zero =>
    intro node priority outcome h
    simp [plain] at h
  | succ low ih =>
    obtain ⟨high, rfl⟩ : ∃ n, high = n + 1 := ⟨high - 1, by omega⟩
    exact explore_of_extends (ih (by omega))

/-- A larger budget keeps an answer. -/
theorem plain_of_le {low high : Nat} (hLe : low ≤ high) {node : NodeId}
    (h : engine.plain weight query low node priority = .ok outcome) :
    engine.plain weight query high node priority = .ok outcome :=
  plain_extends_of_le hLe node priority outcome h

/-- The plain search has at most one answer. -/
theorem Yields.unique {node : NodeId} {other : Outcome}
    (h : engine.Yields weight query node priority outcome)
    (hOther : engine.Yields weight query node priority other) : outcome = other := by
  obtain ⟨low, hLow⟩ := h
  obtain ⟨high, hHigh⟩ := hOther
  have hLeft := plain_of_le (Nat.le_max_left low high) hLow
  have hRight := plain_of_le (Nat.le_max_right low high) hHigh
  rw [hLeft] at hRight
  exact Except.ok.inj hRight

/-- Once an answer is known to be the plain one, the plain search gives it and no other. -/
theorem Yields.iff_eq {node : NodeId} {other : Outcome}
    (h : engine.Yields weight query node priority outcome) :
    engine.Yields weight query node priority other ↔ other = outcome := by
  constructor
  · intro hOther
    exact hOther.unique h
  · rintro rfl
    exact h

end Engine

end GrammarSearch
