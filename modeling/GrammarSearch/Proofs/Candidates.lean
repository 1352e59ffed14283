import GrammarSearch.Proofs.GroupFlags
import GrammarSearch.Proofs.PlainSearch
import GrammarSearch.Proofs.Precedence
import Mathlib.Logic.Relation

/-!
# Candidates of a search

A search of a rule goes on to the groups among its children, at the same priority, and to the
targets of the injections that apply, at the priority of their weight.  The candidates of a rule are
the matches of the children with a pattern of their own, over all rules reached in this way.
Everything a search finds is one of them.

Two facts about candidates decide what may be left out of a search: they never start before the
offset, and below a group that is not flagged they keep the priority of the search.

## Main results

* `genuine_of_plain`: what a plain search finds is a candidate.
* `priority_eq_of_isCandidate`: below a group without a flag the priority stays.
* `not_beats_of_settles`: once a search settles, no candidate of a later sibling beats the best one.
-/

namespace GrammarSearch.Engine

variable {σ : Type}

/-- The match of a child's own pattern, for children that have one that compiles. -/
def own? (engine : Engine σ) (query : Query) (priority : Priority) (child : NodeId) :
    Option Outcome := do
  let rule ← engine.tree.rule? child
  let pattern ← rule.kind.pattern?
  match engine.dialect.search pattern query.line query.offset with
  | .ok hit => some ⟨child, hit, priority, some query.line⟩
  | .error _ => none

/-- Whether a handle is that of a group. -/
def isGroup (engine : Engine σ) (node : NodeId) : Bool :=
  (engine.tree.rule? node).any Rule.isGroup

/-- Whether an injection takes part in a search. -/
def applies (weight : String → String → Weight) (query : Query) (injection : Injection) : Bool :=
  (weight injection.selector query.scope).applies

/-- The rules that a search of a rule goes on to, each with its priority. -/
def below (engine : Engine σ) (weight : String → String → Weight) (query : Query)
    (place : NodeId × Priority) : List (NodeId × Priority) :=
  match engine.tree.rule? place.1 with
  | none => []
  | some rule =>
    (rule.children.filter engine.isGroup).map (·, place.2) ++
      (rule.injections.filter (applies weight query)).map fun injection =>
        (injection.target, (weight injection.selector query.scope).priority)

/-- A match that a search of a rule may find: that of a child of a rule that the search goes on to.
-/
def IsCandidate (engine : Engine σ) (weight : String → String → Weight) (query : Query)
    (place : NodeId × Priority) (c : Outcome) : Prop :=
  ∃ last, Relation.ReflTransGen (fun a b => b ∈ engine.below weight query a) place last ∧
    ∃ rule, engine.tree.rule? last.1 = some rule ∧
      ∃ child ∈ rule.children, engine.own? query last.2 child = some c

/-- A candidate that a child contributes, by its own pattern or as a group. -/
def OfChild (engine : Engine σ) (weight : String → String → Weight) (query : Query)
    (priority : Priority) (child : NodeId) (c : Outcome) : Prop :=
  engine.own? query priority child = some c ∨
    engine.isGroup child = true ∧ engine.IsCandidate weight query (child, priority) c

/-- A candidate that an injection contributes. -/
def OfInjection (engine : Engine σ) (weight : String → String → Weight) (query : Query)
    (injection : Injection) (c : Outcome) : Prop :=
  applies weight query injection = true ∧
    engine.IsCandidate weight query
      (injection.target, (weight injection.selector query.scope).priority) c

variable {engine : Engine σ} {weight : String → String → Weight} {query : Query}
variable {priority : Priority} {node child : NodeId} {c : Outcome}

/-! ## Where candidates come from -/

theorem own?_eq_some_iff :
    engine.own? query priority child = some c ↔
      ∃ rule pattern hit, engine.tree.rule? child = some rule ∧ rule.kind.pattern? = some pattern ∧
        engine.dialect.search pattern query.line query.offset = .ok hit ∧
        c = ⟨child, hit, priority, some query.line⟩ := by
  unfold own?
  cases hRule : engine.tree.rule? child with
  | none => simp
  | some rule =>
    cases hPattern : rule.kind.pattern? with
    | none => simp [hPattern]
    | some pattern =>
      cases hSearch : engine.dialect.search pattern query.line query.offset with
      | error failure => simp [hPattern, hSearch]
      | ok hit => simp [hPattern, hSearch, eq_comm]

theorem isGroup_iff_kind :
    engine.isGroup node = true ↔
      ∃ rule, engine.tree.rule? node = some rule ∧ rule.kind = .group := by
  unfold isGroup
  cases engine.tree.rule? node with
  | none => simp
  | some rule => simp [Rule.isGroup]

theorem mem_below_iff {place : NodeId × Priority} {rule : Rule}
    (hRule : engine.tree.rule? node = some rule) :
    place ∈ engine.below weight query (node, priority) ↔
      (∃ child ∈ rule.children, engine.isGroup child = true ∧ place = (child, priority)) ∨
        ∃ injection ∈ rule.injections, applies weight query injection = true ∧
          place = (injection.target, (weight injection.selector query.scope).priority) := by
  simp only [below, hRule, List.mem_append, List.mem_map, List.mem_filter]
  constructor
  · rintro (⟨child, ⟨hChild, hGroup⟩, rfl⟩ | ⟨injection, ⟨hMem, hApplies⟩, rfl⟩)
    · exact Or.inl ⟨child, hChild, hGroup, rfl⟩
    · exact Or.inr ⟨injection, hMem, hApplies, rfl⟩
  · rintro (⟨child, hChild, hGroup, rfl⟩ | ⟨injection, hMem, hApplies, rfl⟩)
    · exact Or.inl ⟨child, ⟨hChild, hGroup⟩, rfl⟩
    · exact Or.inr ⟨injection, ⟨hMem, hApplies⟩, rfl⟩

theorem below_of_unknown (hRule : engine.tree.rule? node = none) :
    engine.below weight query (node, priority) = [] := by
  simp only [below, hRule]

/-- A candidate of a rule comes from one of its children or from one of its injections. -/
theorem isCandidate_iff :
    engine.IsCandidate weight query (node, priority) c ↔
      ∃ rule, engine.tree.rule? node = some rule ∧
        ((∃ child ∈ rule.children, engine.OfChild weight query priority child c) ∨
          ∃ injection ∈ rule.injections, engine.OfInjection weight query injection c) := by
  constructor
  · rintro ⟨last, hPath, rule, hRule, child, hChild, hOwn⟩
    rcases hPath.cases_head with rfl | ⟨next, hNext, hRest⟩
    · exact ⟨rule, hRule, Or.inl ⟨child, hChild, Or.inl hOwn⟩⟩
    · have hCandidate : engine.IsCandidate weight query next c :=
        ⟨last, hRest, rule, hRule, child, hChild, hOwn⟩
      cases hFirst : engine.tree.rule? node with
      | none =>
        rw [below_of_unknown hFirst] at hNext
        simp at hNext
      | some first =>
        refine ⟨first, rfl, ?_⟩
        rcases (mem_below_iff hFirst).1 hNext with
          ⟨group, hMem, hGroup, rfl⟩ | ⟨injection, hMem, hApplies, rfl⟩
        · exact Or.inl ⟨group, hMem, Or.inr ⟨hGroup, hCandidate⟩⟩
        · exact Or.inr ⟨injection, hMem, hApplies, hCandidate⟩
  · rintro ⟨rule, hRule, ⟨child, hChild, hOwn | ⟨hGroup, hCandidate⟩⟩ |
      ⟨injection, hMem, hApplies, hCandidate⟩⟩
    · exact ⟨(node, priority), .refl, rule, hRule, child, hChild, hOwn⟩
    · obtain ⟨last, hPath, hLast⟩ := hCandidate
      have hStep : (child, priority) ∈ engine.below weight query (node, priority) :=
        (mem_below_iff hRule).2 (Or.inl ⟨child, hChild, hGroup, rfl⟩)
      exact ⟨last, .head hStep hPath, hLast⟩
    · obtain ⟨last, hPath, hLast⟩ := hCandidate
      have hStep : (injection.target, (weight injection.selector query.scope).priority) ∈
          engine.below weight query (node, priority) :=
        (mem_below_iff hRule).2 (Or.inr ⟨injection, hMem, hApplies, rfl⟩)
      exact ⟨last, .head hStep hPath, hLast⟩

/-- A candidate starts at or after the offset of the search. -/
theorem offset_le_of_isCandidate {place : NodeId × Priority} {start : Nat}
    (h : engine.IsCandidate weight query place c) (hStart : c.start? = some start) :
    query.offset ≤ start := by
  obtain ⟨last, -, rule, -, child, -, hOwn⟩ := h
  obtain ⟨-, pattern, hit, -, -, hSearch, rfl⟩ := own?_eq_some_iff.1 hOwn
  exact Pattern.Dialect.le_start_of_search_eq_ok hSearch hStart

theorem offset_le_of_ofChild {start : Nat} (h : engine.OfChild weight query priority child c)
    (hStart : c.start? = some start) : query.offset ≤ start := by
  rcases h with hOwn | ⟨-, hCandidate⟩
  · obtain ⟨-, pattern, hit, -, -, hSearch, rfl⟩ := own?_eq_some_iff.1 hOwn
    exact Pattern.Dialect.le_start_of_search_eq_ok hSearch hStart
  · exact offset_le_of_isCandidate hCandidate hStart

/-- Below a group without a flag there are no injections, so its candidates keep the priority. -/
theorem priority_eq_of_isCandidate (hBuilt : engine.tree.Built)
    (hGroup : engine.isGroup node = true) (hFlag : engine.tree.mayRaisePriority node = false)
    (h : engine.IsCandidate weight query (node, priority) c) : c.priority = priority := by
  obtain ⟨last, hPath, rule, -, child, -, hOwn⟩ := h
  have hLast : engine.isGroup last.1 = true ∧ engine.tree.mayRaisePriority last.1 = false ∧
      last.2 = priority := by
    clear hOwn
    induction hPath with
    | refl => exact ⟨hGroup, hFlag, rfl⟩
    | @tail place next _ hStep ih =>
      obtain ⟨hPlaceGroup, hPlaceFlag, hPriority⟩ := ih
      obtain ⟨placeRule, hRule, hKind⟩ := isGroup_iff_kind.1 hPlaceGroup
      obtain ⟨hInjections, hChildren⟩ :=
        hBuilt.of_mayRaisePriority_eq_false hRule (by simp [Rule.isGroup, hKind]) hPlaceFlag
      rcases (mem_below_iff hRule).1 hStep with
        ⟨group, hMem, hMemGroup, rfl⟩ | ⟨injection, hMem, -⟩
      · exact ⟨hMemGroup, hChildren group hMem, hPriority⟩
      · simp [hInjections] at hMem
  obtain ⟨-, pattern, hit, -, -, -, rfl⟩ := own?_eq_some_iff.1 hOwn
  exact hLast.2.2

/-! ## What a search finds -/

/-- The visits find candidates only. -/
def VisitsGenuinely (engine : Engine σ) (weight : String → String → Weight) (query : Query)
    (visit : Visit (Except Failure)) : Prop :=
  ∀ node priority outcome, visit node priority = .ok outcome → outcome = .nothing node ∨
    outcome.found = true ∧ engine.IsCandidate weight query (node, priority) outcome

variable {visit : Visit (Except Failure)} {best outcome : Outcome}

theorem candidate_of_own (hOwn : engine.own? query priority child = some c) :
    engine.candidate query visit priority child = .ok c := by
  obtain ⟨rule, pattern, hit, hRule, hPattern, hSearch, hOutcome⟩ := own?_eq_some_iff.1 hOwn
  exact candidate_eq_ok_iff.2 ⟨rule, hRule, Or.inl ⟨pattern, hit, hPattern, hSearch, hOutcome⟩⟩

theorem ofChild_of_candidate (hVisit : engine.VisitsGenuinely weight query visit)
    (h : engine.candidate query visit priority child = .ok outcome)
    (hFound : outcome.found = true) : engine.OfChild weight query priority child outcome := by
  obtain ⟨rule, hRule, ⟨pattern, hit, hPattern, hSearch, rfl⟩ | ⟨-, rfl⟩ | ⟨hKind, hGroup⟩⟩ :=
    candidate_eq_ok_iff.1 h
  · exact Or.inl (own?_eq_some_iff.2 ⟨rule, pattern, hit, hRule, hPattern, hSearch, rfl⟩)
  · simp at hFound
  · rcases hVisit child priority outcome hGroup with rfl | ⟨-, hCandidate⟩
    · simp at hFound
    · exact Or.inr ⟨isGroup_iff_kind.2 ⟨rule, hRule, hKind⟩, hCandidate⟩

theorem genuine_of_bestChild (hVisit : engine.VisitsGenuinely weight query visit)
    {children : List NodeId}
    (h : engine.bestChild query visit priority best children = .ok outcome) :
    outcome = best ∨ outcome.found = true ∧
      ∃ child ∈ children, engine.OfChild weight query priority child outcome := by
  induction children generalizing best with
  | nil =>
    left
    exact bestChild_nil_eq_ok_iff.1 h
  | cons child later ih =>
    obtain ⟨next, hNext, hRest⟩ := bestChild_cons_eq_ok_iff.1 h
    have hMerged : outcome = .better engine.tree best next ∨ outcome.found = true ∧
        ∃ child ∈ later, engine.OfChild weight query priority child outcome := by
      rcases hRest with ⟨-, hOutcome⟩ | ⟨-, hLater⟩
      · exact Or.inl hOutcome
      · exact ih hLater
    rcases hMerged with rfl | ⟨hFound, sibling, hMem, hOf⟩
    · rcases Bool.eq_false_or_eq_true next.found with hFound | hFound
      · rcases Outcome.better_eq_or engine.tree best next with hSame | hSame
        · exact Or.inl hSame
        · rw [hSame]
          exact Or.inr ⟨hFound, child, List.mem_cons_self,
            ofChild_of_candidate hVisit hNext hFound⟩
      · exact Or.inl (Outcome.better_of_not_found hFound)
    · exact Or.inr ⟨hFound, sibling, List.mem_cons_of_mem _ hMem, hOf⟩

theorem genuine_of_bestInjection (hVisit : engine.VisitsGenuinely weight query visit)
    {injections : List Injection}
    (h : engine.bestInjection query (weighBy weight) visit best injections = .ok outcome) :
    outcome = best ∨ outcome.found = true ∧
      ∃ injection ∈ injections, engine.OfInjection weight query injection outcome := by
  induction injections generalizing best with
  | nil =>
    left
    exact bestInjection_nil_eq_ok_iff.1 h
  | cons injection later ih =>
    rcases bestInjection_cons_eq_ok_iff.1 h with ⟨hApplies, next, hNext, hLater⟩ | ⟨-, hLater⟩
    · rcases ih hLater with rfl | ⟨hFound, other, hMem, hOf⟩
      · rcases hVisit _ _ _ hNext with rfl | ⟨hFound, hCandidate⟩
        · exact Or.inl (Outcome.better_nothing engine.tree best _)
        · rcases Outcome.better_eq_or engine.tree best next with hSame | hSame
          · exact Or.inl hSame
          · rw [hSame]
            exact Or.inr ⟨hFound, injection, List.mem_cons_self, hApplies, hCandidate⟩
      · exact Or.inr ⟨hFound, other, List.mem_cons_of_mem _ hMem, hOf⟩
    · rcases ih hLater with rfl | ⟨hFound, other, hMem, hOf⟩
      · exact Or.inl rfl
      · exact Or.inr ⟨hFound, other, List.mem_cons_of_mem _ hMem, hOf⟩

theorem visitsGenuinely_explore (hVisit : engine.VisitsGenuinely weight query visit) :
    engine.VisitsGenuinely weight query (engine.explore query (weighBy weight) visit) := by
  intro node priority outcome h
  obtain ⟨rule, best, injected, hRule, hBest, hInjected, rfl⟩ := explore_eq_ok_iff.1 h
  have hBest := genuine_of_bestChild hVisit hBest
  rcases genuine_of_bestInjection hVisit hInjected with rfl | ⟨hFound, injection, hMem, hOf⟩
  · rw [Outcome.better_nothing]
    rcases hBest with rfl | ⟨hFound, child, hMem, hOf⟩
    · exact Or.inl rfl
    · exact Or.inr ⟨hFound, isCandidate_iff.2 ⟨rule, hRule, Or.inl ⟨child, hMem, hOf⟩⟩⟩
  · rcases Outcome.better_eq_or engine.tree best injected with hSame | hSame
    · rw [hSame]
      rcases hBest with rfl | ⟨hFound, child, hMem, hOf⟩
      · exact Or.inl rfl
      · exact Or.inr ⟨hFound, isCandidate_iff.2 ⟨rule, hRule, Or.inl ⟨child, hMem, hOf⟩⟩⟩
    · rw [hSame]
      exact Or.inr ⟨hFound, isCandidate_iff.2 ⟨rule, hRule, Or.inr ⟨injection, hMem, hOf⟩⟩⟩

/-- What a plain search finds is a candidate; otherwise it says that nothing applies to its rule. -/
theorem genuine_of_plain (budget : Nat) :
    engine.VisitsGenuinely weight query (engine.plain weight query budget) := by
  induction budget with
  | zero =>
    intro node priority outcome h
    simp [plain] at h
  | succ budget ih => exact visitsGenuinely_explore ih

/-! ## What may be left out -/

/-- Once a search settles, its best outcome starts at the offset. -/
theorem start?_eq_of_settles {later : List NodeId}
    (hSettles : engine.settles query priority best later = true) :
    best.start? = some query.offset := by
  simp only [settles, Bool.and_eq_true, beq_iff_eq] at hSettles
  exact hSettles.1.2

theorem found_of_settles {later : List NodeId}
    (hSettles : engine.settles query priority best later = true) : best.found = true :=
  (Outcome.found_iff best).2 ⟨query.offset, start?_eq_of_settles hSettles⟩

/-- Once a search settles, no candidate of a later sibling beats the best outcome. -/
theorem not_beats_of_settles (hBuilt : engine.tree.Built) {later : List NodeId}
    (hSettles : engine.settles query priority best later = true) (hChild : child ∈ later)
    (hOf : engine.OfChild weight query priority child c) : c.beats best = false := by
  rw [Bool.eq_false_iff]
  intro hBeats
  obtain ⟨s, t, hs, ht, hst⟩ := Outcome.beats_iff.1 hBeats
  have hStart := start?_eq_of_settles hSettles
  rw [hStart] at ht
  obtain rfl := Option.some.inj ht
  have hOffset := offset_le_of_ofChild hOf hs
  simp only [settles, Bool.and_eq_true, Bool.or_eq_true, beq_iff_eq, decide_eq_true_eq,
    Bool.not_eq_true', List.any_eq_false] at hSettles
  rcases hSettles.2 with hHigh | ⟨hLe, hFlags⟩
  · rw [hHigh] at hst
    have : c.priority.rank ≤ Priority.high.rank := by cases c.priority <;> decide
    omega
  · have hPriority : c.priority = priority := by
      rcases hOf with hOwn | ⟨hGroup, hCandidate⟩
      · obtain ⟨-, -, -, -, -, -, rfl⟩ := own?_eq_some_iff.1 hOwn
        rfl
      · have hFlag : engine.tree.mayRaisePriority child = false := by
          simpa using hFlags child hChild
        exact priority_eq_of_isCandidate hBuilt hGroup hFlag hCandidate
    rw [Priority.le_iff_rank] at hLe
    rw [hPriority] at hst
    omega

end GrammarSearch.Engine
