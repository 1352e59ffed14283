import GrammarSearch.Proofs.Candidates
import GrammarSearch.Proofs.LexicalScoping
import GrammarSearch.Proofs.MemoFreeSearch
import GrammarSearch.Proofs.WrittenInjections

/-!
# Ties between injections

Of the injections of a rule that find something at one place with one priority, the search answers
with the first one in the list of the rule, since only a better outcome takes the place of an
earlier one (`Engine.IsForemost.yields`).  The root of a grammar has the grammar's own injections at
the front of that list, and what other grammars inject behind them.  A grammar that is read from a
JSON text has its injections in the order of their selectors, so among those that tie the one with
the least selector wins, wherever it is written (`Builder.tied_injections_fall_to_least_selector`).

## Main results

* `Engine.IsForemost.yields`: of the injections that tie, the first one gives the answer.
* `Builder.tied_injections_fall_to_least_selector`: of the own injections of a grammar that tie, the
  one with the least selector does.
-/

namespace GrammarSearch

/-! ## Outcomes that tie -/

namespace Outcome

/-- Two outcomes start together and have one priority. -/
def Ties (first second : Outcome) : Prop :=
  first.start? = second.start? ∧ first.priority = second.priority

/-- The second outcome did not match, or the first one beats it. -/
def Outdoes (answer outcome : Outcome) : Prop :=
  outcome.found = true → answer.beats outcome = true

variable {answer old new outcome : Outcome} {tree : Tree}

theorem Outdoes.better (hOld : answer.Outdoes old) (hNew : answer.Outdoes new) :
    answer.Outdoes (better tree old new) := by
  rcases better_eq_or tree old new with hKept | hReplaced
  · rw [hKept]
    exact hOld
  · rw [hReplaced]
    exact hNew

/-- An outcome takes the place of one that it outdoes. -/
theorem Outdoes.better_eq (hOld : answer.Outdoes old) (hFound : answer.found = true)
    (hSolid : answer.isSolid tree = true) : Outcome.better tree old answer = answer := by
  rcases Bool.eq_false_or_eq_true old.found with hMatched | hMissing
  · exact better_of_beats (hOld hMatched) hSolid
  · exact better_of_old_not_found hFound hMissing

/-- An outcome that matched outdoes what neither beats it nor ties with it. -/
theorem outdoes_of_not_ties (hFound : answer.found = true)
    (hBeats : outcome.beats answer = false) (hTies : ¬ outcome.Ties answer) :
    answer.Outdoes outcome := by
  intro hMatched
  obtain ⟨start, hStart⟩ := (found_iff answer).1 hFound
  obtain ⟨other, hOther⟩ := (found_iff outcome).1 hMatched
  have hNotFirst : ¬ (other < start ∨
      other = start ∧ answer.priority.rank < outcome.priority.rank) := by
    intro hFirst
    rw [beats_iff.2 ⟨other, start, hOther, hStart, hFirst⟩] at hBeats
    contradiction
  refine beats_iff.2 ⟨start, other, hStart, hOther, ?_⟩
  rcases Nat.lt_trichotomy start other with hLess | rfl | hGreater
  · exact .inl hLess
  · have hRank : outcome.priority.rank ≠ answer.priority.rank := fun hRank =>
      hTies ⟨hOther.trans hStart.symm, Priority.rank_inj.1 hRank⟩
    omega
  · omega

end Outcome

/-! ## The first of the injections that tie -/

namespace Engine

variable {σ : Type}

/-- What the plain search without any limit gets from a child: the match of its own pattern, what is
found under a group, or nothing. -/
def ChildYields (engine : Engine σ) (weight : String → String → Weight) (query : Query)
    (priority : Priority) (child : NodeId) (outcome : Outcome) : Prop :=
  ∃ budget, engine.candidate query (engine.plain weight query budget) priority child = .ok outcome

/-- What the plain search without any limit gets through an injection. -/
def InjectionYields (engine : Engine σ) (weight : String → String → Weight) (query : Query)
    (injection : Injection) (outcome : Outcome) : Prop :=
  engine.Yields weight query injection.target (weight injection.selector query.scope).priority
    outcome

/-- An outcome that matched, and not just an empty place, beats whatever is found under the children
of a rule, and nothing that is found through the injections that apply beats it. -/
structure IsForemost (engine : Engine σ) (weight : String → String → Weight) (query : Query)
    (priority : Priority) (rule : Rule) (answer : Outcome) : Prop where
  found : answer.found = true
  solid : answer.isSolid engine.tree = true
  children : ∀ child ∈ rule.children, ∃ outcome,
    engine.ChildYields weight query priority child outcome ∧ answer.Outdoes outcome
  injections : ∀ injection ∈ rule.injections, applies weight query injection = true →
    ∃ outcome, engine.InjectionYields weight query injection outcome ∧
      outcome.beats answer = false

variable {engine : Engine σ} {weight : String → String → Weight} {query : Query}
variable {priority : Priority} {node : NodeId} {rule : Rule} {answer best : Outcome}
variable {injection : Injection} {earlier later : List Injection}

section

variable {visit : Visit (Except Failure)}

/-- What is outdone child by child is outdone in the end. -/
theorem exists_outdone_bestChild {children : List NodeId} (hBest : answer.Outdoes best)
    (hChildren : ∀ child ∈ children, ∃ outcome,
      engine.candidate query visit priority child = .ok outcome ∧ answer.Outdoes outcome) :
    ∃ outcome, engine.bestChild query visit priority best children = .ok outcome ∧
      answer.Outdoes outcome := by
  induction children generalizing best with
  | nil => exact ⟨best, rfl, hBest⟩
  | cons child later ih =>
    obtain ⟨⟨next, hNext, hNextOutdone⟩, hLater⟩ := List.forall_mem_cons.1 hChildren
    have hMerged : answer.Outdoes (.better engine.tree best next) := hBest.better hNextOutdone
    obtain ⟨outcome, hOutcome, hOutdone⟩ := ih hMerged hLater
    cases hSettles : engine.settles query priority (.better engine.tree best next) later with
    | true => exact ⟨_, bestChild_cons_eq_ok_iff.2 ⟨next, hNext, .inl ⟨hSettles, rfl⟩⟩, hMerged⟩
    | false =>
      exact ⟨outcome, bestChild_cons_eq_ok_iff.2 ⟨next, hNext, .inr ⟨hSettles, hOutcome⟩⟩, hOutdone⟩

/-- An outcome that matched stays the best one while nothing beats it. -/
theorem bestInjection_eq_of_not_beats (hFound : answer.found = true)
    (hLater : ∀ injection ∈ later, applies weight query injection = true → ∃ outcome,
      visit injection.target (weight injection.selector query.scope).priority = .ok outcome ∧
        outcome.beats answer = false) :
    engine.bestInjection query (weighBy weight) visit answer later = .ok answer := by
  induction later with
  | nil => rfl
  | cons injection later ih =>
    obtain ⟨hNext, hRest⟩ := List.forall_mem_cons.1 hLater
    rw [bestInjection_cons_eq_ok_iff]
    cases hApplies : applies weight query injection with
    | true =>
      obtain ⟨next, hVisit, hBeats⟩ := hNext hApplies
      refine .inl ⟨hApplies, next, hVisit, ?_⟩
      rw [Outcome.better_of_not_beats hFound hBeats]
      exact ih hRest
    | false => exact .inr ⟨hApplies, ih hRest⟩

/-- An outcome is the best one of some injections if the earlier ones are outdone by it and the
later ones do not beat it. -/
theorem bestInjection_eq_of_outdone (hFound : answer.found = true)
    (hSolid : answer.isSolid engine.tree = true) (hApplies : applies weight query injection = true)
    (hVisit : visit injection.target (weight injection.selector query.scope).priority = .ok answer)
    (hBest : answer.Outdoes best)
    (hEarlier : ∀ injection ∈ earlier, applies weight query injection = true → ∃ outcome,
      visit injection.target (weight injection.selector query.scope).priority = .ok outcome ∧
        answer.Outdoes outcome)
    (hLater : ∀ injection ∈ later, applies weight query injection = true → ∃ outcome,
      visit injection.target (weight injection.selector query.scope).priority = .ok outcome ∧
        outcome.beats answer = false) :
    engine.bestInjection query (weighBy weight) visit best (earlier ++ injection :: later) =
      .ok answer := by
  induction earlier generalizing best with
  | nil =>
    refine bestInjection_cons_eq_ok_iff.2 (.inl ⟨hApplies, answer, hVisit, ?_⟩)
    rw [hBest.better_eq hFound hSolid]
    exact bestInjection_eq_of_not_beats hFound hLater
  | cons first earlier ih =>
    obtain ⟨hNext, hRest⟩ := List.forall_mem_cons.1 hEarlier
    rw [List.cons_append, bestInjection_cons_eq_ok_iff]
    cases hFirst : applies weight query first with
    | true =>
      obtain ⟨next, hVisitFirst, hOutdone⟩ := hNext hFirst
      exact .inl ⟨hFirst, next, hVisitFirst, ih (hBest.better hOutdone) hRest⟩
    | false => exact .inr ⟨hFirst, ih hBest hRest⟩

end

/-- What finitely many things have with some budget each, and keep with a larger one, they all have
with one budget. -/
theorem exists_common_budget {α : Type} {P : Nat → α → Prop} {list : List α}
    (hKeeps : ∀ {low high : Nat} {x : α}, low ≤ high → P low x → P high x)
    (h : ∀ x ∈ list, ∃ budget, P budget x) : ∃ budget, ∀ x ∈ list, P budget x := by
  induction list with
  | nil => exact ⟨0, fun x hMem => absurd hMem List.not_mem_nil⟩
  | cons first rest ih =>
    obtain ⟨⟨low, hLow⟩, hRest⟩ := List.forall_mem_cons.1 h
    obtain ⟨high, hHigh⟩ := ih hRest
    refine ⟨max low high, List.forall_mem_cons.2 ⟨?_, fun x hMem => ?_⟩⟩
    · exact hKeeps (Nat.le_max_left low high) hLow
    · exact hKeeps (Nat.le_max_right low high) (hHigh x hMem)

namespace IsForemost

variable (h : engine.IsForemost weight query priority rule answer)

include h

theorem exists_budget_children : ∃ budget, ∀ child ∈ rule.children, ∃ outcome,
    engine.candidate query (engine.plain weight query budget) priority child = .ok outcome ∧
      answer.Outdoes outcome := by
  refine exists_common_budget ?_ fun child hMem => ?_
  · rintro low high child hLe ⟨outcome, hCandidate, hOutdone⟩
    exact ⟨outcome, candidate_of_extends (plain_extends_of_le hLe) hCandidate, hOutdone⟩
  · obtain ⟨outcome, ⟨budget, hCandidate⟩, hOutdone⟩ := h.children child hMem
    exact ⟨budget, outcome, hCandidate, hOutdone⟩

theorem exists_budget_injections : ∃ budget, ∀ injection ∈ rule.injections,
    applies weight query injection = true → ∃ outcome,
      engine.plain weight query budget injection.target
        (weight injection.selector query.scope).priority = .ok outcome ∧
        outcome.beats answer = false := by
  refine exists_common_budget ?_ fun injection hMem => ?_
  · intro low high injection hLe hLow hApplies
    obtain ⟨outcome, hPlain, hBeats⟩ := hLow hApplies
    exact ⟨outcome, plain_of_le hLe hPlain, hBeats⟩
  · cases hApplies : applies weight query injection with
    | true =>
      obtain ⟨outcome, ⟨budget, hPlain⟩, hBeats⟩ := h.injections injection hMem hApplies
      exact ⟨budget, fun _ => ⟨outcome, hPlain, hBeats⟩⟩
    | false => exact ⟨0, fun hTrue => absurd hTrue Bool.false_ne_true⟩

/-- A foremost outcome is what a search of the rule gives if it comes through an injection and no
earlier injection ties with it. -/
theorem yields (hRule : engine.tree.rule? node = some rule)
    (hSplit : rule.injections = earlier ++ injection :: later)
    (hApplies : applies weight query injection = true)
    (hAnswer : engine.InjectionYields weight query injection answer)
    (hEarlier : ∀ first ∈ earlier, applies weight query first = true → ∀ outcome,
      engine.InjectionYields weight query first outcome → ¬ outcome.Ties answer) :
    engine.Yields weight query node priority answer := by
  obtain ⟨below, hChildren⟩ := h.exists_budget_children
  obtain ⟨aside, hInjections⟩ := h.exists_budget_injections
  obtain ⟨own, hOwn⟩ := hAnswer
  -- One budget that is enough for the children, for all injections and for the answer.
  obtain ⟨budget, hBelow, hAside, hEnough⟩ : ∃ budget, below ≤ budget ∧ aside ≤ budget ∧
      own ≤ budget := ⟨max below (max aside own), by omega, by omega, by omega⟩
  have hVisits : ∀ other ∈ rule.injections, applies weight query other = true → ∃ outcome,
      engine.plain weight query budget other.target
        (weight other.selector query.scope).priority = .ok outcome ∧
        outcome.beats answer = false := by
    intro other hMem hOther
    obtain ⟨outcome, hPlain, hBeats⟩ := hInjections other hMem hOther
    exact ⟨outcome, plain_of_le hAside hPlain, hBeats⟩
  rw [hSplit] at hVisits
  obtain ⟨hFirst, hRest⟩ := List.forall_mem_append.1 hVisits
  have hOutdone : ∀ first ∈ earlier, applies weight query first = true → ∃ outcome,
      engine.plain weight query budget first.target
        (weight first.selector query.scope).priority = .ok outcome ∧
        answer.Outdoes outcome := by
    intro first hMem hOther
    obtain ⟨outcome, hPlain, hBeats⟩ := hFirst first hMem hOther
    refine ⟨outcome, hPlain, Outcome.outdoes_of_not_ties h.found hBeats ?_⟩
    exact hEarlier first hMem hOther outcome ⟨budget, hPlain⟩
  have hNothing : answer.Outdoes (.nothing node) := fun hFound => absurd hFound Bool.false_ne_true
  obtain ⟨best, hBest, hLess⟩ := exists_outdone_bestChild hNothing fun child hMem => by
    obtain ⟨outcome, hCandidate, hOutdone⟩ := hChildren child hMem
    exact ⟨outcome, candidate_of_extends (plain_extends_of_le hBelow) hCandidate, hOutdone⟩
  have hInjected := bestInjection_eq_of_outdone h.found h.solid hApplies
    (plain_of_le hEnough hOwn) hNothing hOutdone (List.forall_mem_cons.1 hRest).2
  rw [← hSplit] at hInjected
  refine ⟨budget + 1, explore_eq_ok_iff.2 ⟨rule, best, answer, hRule, hBest, hInjected, ?_⟩⟩
  exact (hLess.better_eq h.found h.solid).symm

end IsForemost

/-- A session gives the plain answer unless the search is cancelled or goes too deep. -/
theorem Yields.first_eq (h : engine.Yields weight query node priority answer)
    (hAnswers : engine.weigher.Answers weight) {supply : LineSupply} {texts : List String}
    {session : Session σ} (hReachable : engine.Reachable (supply.lines texts).1 session)
    (hLine : query.line ∈ (supply.lines texts).1)
    (hToken : ((engine.first query node priority).run.run session).2.cancelled.holds query.token =
      false)
    (hConclusive :
      Conclusive (engine.plain weight query (engine.options.maxDepth + 1) node priority)) :
    ((engine.first query node priority).run.run session).1 = .ok answer := by
  obtain ⟨-, -, hGives⟩ := tracks_visit hAnswers hLine (Nat.le_refl (engine.options.maxDepth + 1))
    node priority session (hReachable.plainAnswers hAnswers)
  rcases hGives hToken hConclusive with hSame | ⟨failure, ⟨hLess, -⟩, -⟩
  · exact hSame.trans (h.eq_of_conclusive hConclusive)
  · exact absurd hLess (Nat.lt_irrefl _)

/-- From a list of injections one applies and gives a foremost outcome of a rule, and those of the
list that tie with it have no lesser selectors. -/
structure WinsTie (engine : Engine σ) (weight : String → String → Weight) (query : Query)
    (priority : Priority) (rule : Rule) (own : List Injection) (injection : Injection)
    (answer : Outcome) : Prop where
  mem : injection ∈ own
  active : applies weight query injection = true
  yields : engine.InjectionYields weight query injection answer
  foremost : engine.IsForemost weight query priority rule answer
  least : ∀ other ∈ own, applies weight query other = true → ∀ outcome,
    engine.InjectionYields weight query other outcome → outcome.Ties answer →
      injection.selector ≤ other.selector

namespace WinsTie

variable {own gained : List Injection}

/-- Where injections stand in the order of their selectors, before any others, the one with the
least selector wins a tie. -/
theorem rule_yields (h : engine.WinsTie weight query priority rule own injection answer)
    (hRule : engine.tree.rule? node = some rule) (hSplit : rule.injections = own ++ gained)
    (hOrder : (own.map Injection.selector).Pairwise (· < ·)) :
    engine.Yields weight query node priority answer := by
  obtain ⟨earlier, later, rfl⟩ := List.append_of_mem h.mem
  rw [List.append_assoc, List.cons_append] at hSplit
  refine h.foremost.yields hRule hSplit h.active h.yields ?_
  intro first hMem hApplies outcome hYields hTies
  rw [List.map_append, List.pairwise_append] at hOrder
  have hLess : first.selector < injection.selector := by
    refine hOrder.2.2 _ (List.mem_map_of_mem hMem) _ ?_
    exact List.mem_map_of_mem List.mem_cons_self
  have hLeast := h.least first (List.mem_append_left _ hMem) hApplies outcome hYields hTies
  exact hLeast hLess

end WinsTie

end Engine

/-! ## The root of a grammar -/

namespace Builder

variable {builder added : Builder} {rule : Rule} {index : Nat}

/-- The builder after some grammars are added, whether they go through or not. -/
def addAll (builder : Builder) (forms : List GrammarForm) : Builder :=
  forms.foldl (fun builder form => (builder.add form).2) builder

@[simp] theorem addAll_nil (builder : Builder) : builder.addAll [] = builder := rfl

/-- Adding a grammar leaves the rules that are there as they are, but for injections they gain. -/
theorem exists_gained_of_add (form : GrammarForm) (hRule : builder.rules[index]? = some rule) :
    ∃ gained, (builder.add form).2.rules[index]? = some (rule.addInjections gained) := by
  rcases hAdd : builder.add form with ⟨failure | root, after⟩
  · refine ⟨[], ?_⟩
    rw [eq_of_add_error hAdd, Rule.addInjections_nil, hRule]
  · cases hRead : form.read with
    | error unread =>
      rw [add, hRead] at hAdd
      cases hAdd
    | ok source =>
      rw [add_eq_of_read hRead] at hAdd
      have hAfter :=
        earlier_rules_of_addGrammar_ok hAdd (Array.getElem?_eq_some_iff.1 hRule).1
      rw [hRule, Option.map_some] at hAfter
      exact ⟨_, hAfter⟩

theorem exists_gained_of_addAll (forms : List GrammarForm)
    (hRule : builder.rules[index]? = some rule) :
    ∃ gained, (builder.addAll forms).rules[index]? = some (rule.addInjections gained) := by
  induction forms generalizing builder rule with
  | nil => exact ⟨[], by rw [Rule.addInjections_nil]; exact hRule⟩
  | cons form forms ih =>
    obtain ⟨first, hFirst⟩ := exists_gained_of_add form hRule
    obtain ⟨last, hLast⟩ := ih hFirst
    exact ⟨first ++ last, by rw [Rule.addInjections_append]; exact hLast⟩

/-- The injections that a grammar has itself. -/
def ownInjections (grammar : GrammarSource) (targets : List Compiled) : List Injection :=
  List.zipWith (fun (selector, _) target => ⟨selector, target.node⟩) grammar.injections targets

theorem map_selector_ownInjections {grammar : GrammarSource} {targets : List Compiled}
    (hTargets : targets.map Compiled.source = grammar.injections.map Prod.snd) :
    (ownInjections grammar targets).map Injection.selector = grammar.injections.map Prod.fst := by
  have hLength : grammar.injections.length ≤ targets.length := by
    have hSame := congrArg List.length hTargets
    rw [List.length_map, List.length_map] at hSame
    exact Nat.le_of_eq hSame.symm
  rw [ownInjections, ← List.map_uncurry_zip_eq_zipWith, List.map_map]
  conv_rhs => rw [← List.map_fst_zip hLength, List.map_map]
  rfl

/-- A grammar that is added as a JSON text goes through as it is written, with its injections in
order. -/
theorem exists_written_of_add {text : String} {root : NodeId}
    (hAdd : builder.add (.json text) = (.ok root, added)) :
    ∃ written, GrammarSource.writtenOfJson text = .ok written ∧
      builder.addGrammar written.inOrder = (.ok root, added) := by
  have hRead : (GrammarForm.json text).read =
      ((GrammarSource.writtenOfJson text).map GrammarSource.inOrder).mapError .json := by
    rw [GrammarForm.read, GrammarSource.ofJson_eq_map_inOrder]
  cases hWritten : GrammarSource.writtenOfJson text with
  | error fault =>
    rw [hWritten] at hRead
    rw [add, hRead] at hAdd
    cases hAdd
  | ok written =>
    rw [hWritten] at hRead
    exact ⟨written, rfl, add_eq_of_read hRead ▸ hAdd⟩

/-- The root of a grammar that is read from a JSON text with different selectors has the grammar's
own injections in the order of the selectors, which is the order in which they are written only if
they are written in order, and behind them what other grammars inject.  Of own injections whose
outcomes tie and are foremost, the one with the least selector gives the answer. -/
theorem tied_injections_fall_to_least_selector {loaded : List Loaded} {text : String}
    {root : NodeId} (hBuilt : Built loaded builder)
    (hAdd : builder.add (.json text) = (.ok root, added)) (later : List GrammarForm) :
    ∃ written, GrammarSource.writtenOfJson text = .ok written ∧
      ((written.injections.map Prod.fst).Nodup →
        ∃ entries children targets waiting rule gained,
          Embodies added.rules loaded written.inOrder root entries children targets waiting ∧
          (added.addAll later).build.rule? root = some rule ∧
          rule.injections = ownInjections written.inOrder targets ++ gained ∧
          ((ownInjections written.inOrder targets).map Injection.selector).Perm
            (written.injections.map Prod.fst) ∧
          ((ownInjections written.inOrder targets).map Injection.selector).Pairwise (· < ·) ∧
          ((ownInjections written.inOrder targets).map Injection.selector =
              written.injections.map Prod.fst ↔
            (written.injections.map Prod.fst).Pairwise (· < ·)) ∧
          ∀ {σ : Type} {engine : Engine σ} {weight : String → String → Weight}
            {supply : LineSupply} {texts : List String} {session : Session σ} {query : Query}
            {priority : Priority} {injection : Injection} {answer : Outcome},
            engine.tree = (added.addAll later).build → engine.weigher.Answers weight →
            engine.Reachable (supply.lines texts).1 session →
            query.line ∈ (supply.lines texts).1 →
            engine.WinsTie weight query priority rule (ownInjections written.inOrder targets)
              injection answer →
            (∀ outcome, ((engine.first query root priority).run.run session).1 = .ok outcome →
              outcome = answer) ∧
            (((engine.first query root priority).run.run session).2.cancelled.holds query.token =
                false →
              Conclusive (engine.plain weight query (engine.options.maxDepth + 1) root priority) →
              ((engine.first query root priority).run.run session).1 = .ok answer)) := by
  obtain ⟨written, hWritten, hAdded⟩ := exists_written_of_add hAdd
  refine ⟨written, hWritten, fun hNodup => ?_⟩
  obtain ⟨entries, children, targets, waiting, hEmbodies⟩ :=
    hBuilt.agrees.exists_embodies hAdded
  obtain ⟨gained, hRule⟩ := exists_gained_of_addAll later hEmbodies.root_eq
  have hSorted := GrammarSource.injections_inOrder hNodup
  have hSelectors := map_selector_ownInjections hEmbodies.injections_eq
  have hOrder : ((ownInjections written.inOrder targets).map Injection.selector).Pairwise
      (· < ·) := by
    rw [hSelectors, hSorted]
    exact Table.pairwise_lt_sorted hNodup
  refine ⟨entries, children, targets, waiting, _, waiting ++ gained, hEmbodies, hRule, ?_, ?_,
    hOrder, ⟨?_, ?_⟩, ?_⟩
  · exact List.append_assoc ..
  · rw [hSelectors, hSorted]
    exact (Table.sorted_perm _).map Prod.fst
  · intro hSame
    rw [← hSame]
    exact hOrder
  · intro hLt
    rw [hSelectors, (GrammarSource.inOrder_injections_eq_iff hNodup).2 hLt]
  · intro σ engine weight supply texts session query priority injection answer hTree hAnswers
      hReachable hLine hWins
    have hYields : engine.Yields weight query root priority answer :=
      hWins.rule_yields (hTree ▸ hRule) (List.append_assoc ..) hOrder
    refine ⟨fun outcome hOutcome => ?_, fun hToken hConclusive => ?_⟩
    · exact (hReachable.yields_of_first hAnswers hLine hOutcome).unique hYields
    · exact hYields.first_eq hAnswers hReachable hLine hToken hConclusive

/-- A JSON text with two injections of one pattern, the first one under the greater selector. -/
def crossedText : String :=
  "\x7b\"scopeName\":\"source.x\",\"injections\":\x7b" ++
    "\"source.x\":\x7b\"patterns\":[\x7b\"match\":\"a\",\"name\":\"first\"\x7d]\x7d," ++
    "\"source\":\x7b\"patterns\":[\x7b\"match\":\"a\",\"name\":\"second\"\x7d]\x7d\x7d\x7d"

/-- The grammar of the text, with its injections in some order. -/
def crossedGrammar (order : Table RuleSource → Table RuleSource) : GrammarSource where
  scopeName := "source.x"
  injections := order
    [("source.x", { patterns := [{ name := some "first", matchPattern := some "a" }] }),
      ("source", { patterns := [{ name := some "second", matchPattern := some "a" }] })]

/-- The builder that the text leads to. -/
def crossedBuilder : Builder :=
  (({} : Builder).addGrammar (crossedGrammar List.reverse)).2

/-- An engine over the grammar of the text. -/
def crossedEngine : Engine Unit where
  tree := crossedBuilder.build
  weigher := .selectors

/-- A search of an `a` in the scope of the grammar. -/
def crossedQuery : Query :=
  ⟨⟨0, "a"⟩, 0, "source.x", ⟨0⟩⟩

/-- The root of the grammar. -/
def crossedRoot : Rule where
  name := some "source.x"
  injections := [⟨"source", ⟨1⟩⟩, ⟨"source.x", ⟨3⟩⟩]

/-- What is found through the injection that is written first. -/
def firstOutcome : Outcome :=
  ⟨⟨4⟩, ⟨[⟨0, 1⟩]⟩, .normal, some ⟨0, "a"⟩⟩

/-- What is found through the injection that is written second. -/
def secondOutcome : Outcome :=
  ⟨⟨2⟩, ⟨[⟨0, 1⟩]⟩, .normal, some ⟨0, "a"⟩⟩

theorem writtenOfJson_crossedText :
    GrammarSource.writtenOfJson crossedText = .ok (crossedGrammar id) := by
  decide +kernel

theorem inOrder_crossedGrammar : (crossedGrammar id).inOrder = crossedGrammar List.reverse := by
  have hSorted : Table.sorted (crossedGrammar id).injections =
      (crossedGrammar List.reverse).injections :=
    Table.sorted_eq_of_perm (List.reverse_perm _) (by decide)
  rw [GrammarSource.inOrder, Table.ofListed_of_nodup (by decide), hSorted]
  rfl

theorem add_crossedText :
    ({} : Builder).add (.json crossedText) = (.ok ⟨0⟩, crossedBuilder) := by
  have hRead : (GrammarForm.json crossedText).read = .ok (crossedGrammar List.reverse) := by
    rw [GrammarForm.read, GrammarSource.ofJson_eq_map_inOrder, writtenOfJson_crossedText,
      Except.map, inOrder_crossedGrammar]
    rfl
  have hRoot : (({} : Builder).addGrammar (crossedGrammar List.reverse)).1 = .ok ⟨0⟩ := by
    decide +kernel
  rw [add_eq_of_read hRead, crossedBuilder, ← hRoot]

theorem crossed_yields :
    crossedEngine.InjectionYields Selector.weightOf crossedQuery ⟨"source", ⟨1⟩⟩ secondOutcome ∧
    crossedEngine.InjectionYields Selector.weightOf crossedQuery ⟨"source.x", ⟨3⟩⟩
      firstOutcome := by
  constructor
  · exact ⟨1, by decide +kernel⟩
  · exact ⟨1, by decide +kernel⟩

theorem mem_crossedRoot_iff {injection : Injection} :
    injection ∈ crossedRoot.injections ↔
      injection = ⟨"source", ⟨1⟩⟩ ∨ injection = ⟨"source.x", ⟨3⟩⟩ := by
  rw [crossedRoot, List.mem_pair]

theorem crossed_isForemost :
    crossedEngine.IsForemost Selector.weightOf crossedQuery .normal crossedRoot secondOutcome where
  found := rfl
  solid := by decide +kernel
  children _ hMem := absurd hMem List.not_mem_nil
  injections injection hMem _ := by
    rcases mem_crossedRoot_iff.1 hMem with rfl | rfl
    · exact ⟨secondOutcome, crossed_yields.1, by decide⟩
    · exact ⟨firstOutcome, crossed_yields.2, by decide⟩

theorem crossed_winsTie :
    crossedEngine.WinsTie Selector.weightOf crossedQuery .normal crossedRoot
      crossedRoot.injections ⟨"source", ⟨1⟩⟩ secondOutcome where
  mem := by decide
  active := by decide +kernel
  yields := crossed_yields.1
  foremost := crossed_isForemost
  least other hMem _ _ _ _ := by
    rcases mem_crossedRoot_iff.1 hMem with rfl | rfl
    · exact String.le_refl _
    · decide

/-- Both injections of the text find the same match, and the one under the lesser selector, which
is written second, wins. -/
theorem lesser_selector_wins_tie :
    Built [] {} ∧ ({} : Builder).add (.json crossedText) = (.ok ⟨0⟩, crossedBuilder) ∧
    ((crossedGrammar id).injections.map Prod.fst).Nodup ∧
    crossedEngine.weigher.Answers Selector.weightOf ∧
    crossedEngine.Reachable (LineSupply.lines ⟨0⟩ ["a"]).1 crossedEngine.newSession ∧
    crossedEngine.WinsTie Selector.weightOf crossedQuery .normal crossedRoot
      crossedRoot.injections ⟨"source", ⟨1⟩⟩ secondOutcome ∧
    ((crossedEngine.first crossedQuery ⟨0⟩ .normal).run.run crossedEngine.newSession).1 =
      .ok secondOutcome := by
  have hNodup : ((crossedGrammar id).injections.map Prod.fst).Nodup := by decide
  have hAnswers : crossedEngine.weigher.Answers Selector.weightOf := fun _ _ _ => rfl
  refine ⟨.empty, add_crossedText, hNodup, hAnswers, .new, crossed_winsTie, ?_⟩
  obtain ⟨written, hWritten, hRest⟩ :=
    tied_injections_fall_to_least_selector .empty add_crossedText []
  cases writtenOfJson_crossedText.symm.trans hWritten
  obtain ⟨entries, children, targets, waiting, rule, gained, -, hRule, hSplit, hPerm, -, -,
    hSearch⟩ := hRest hNodup
  rw [addAll_nil] at hRule hSearch
  have hRoot : crossedBuilder.build.rule? ⟨0⟩ = some crossedRoot := by decide +kernel
  cases hRoot.symm.trans hRule
  -- The root has two injections, and so has the grammar itself.
  have hOwn : crossedRoot.injections = ownInjections (crossedGrammar id).inOrder targets := by
    refine List.append_inj_left ((List.append_nil _).trans hSplit) ?_
    have hLength := hPerm.length_eq
    rw [List.length_map, List.length_map] at hLength
    exact hLength.symm
  have hWins := crossed_winsTie
  rw [hOwn] at hWins
  have hReachable : crossedEngine.Reachable (LineSupply.lines ⟨0⟩ ["a"]).1
      crossedEngine.newSession := .new
  have hPlain : crossedEngine.plain Selector.weightOf crossedQuery 257 ⟨0⟩ .normal =
      .ok secondOutcome := by decide +kernel
  have hTree : crossedEngine.tree = crossedBuilder.build := rfl
  refine (hSearch hTree hAnswers hReachable (by decide) hWins).2 (by decide +kernel) ?_
  exact hPlain ▸ .ok _

/-- The injection that is written first is the second one of the root, and loses the tie. -/
theorem first_written_loses_tie :
    GrammarSource.writtenOfJson crossedText = .ok (crossedGrammar id) ∧
    (crossedGrammar id).injections.map Prod.fst = ["source.x", "source"] ∧
    ({} : Builder).add (.json crossedText) = (.ok ⟨0⟩, crossedBuilder) ∧
    crossedEngine.tree = crossedBuilder.build ∧
    crossedEngine.tree.rule? ⟨0⟩ = some crossedRoot ∧ crossedRoot.children = [] ∧
    crossedRoot.injections.map Injection.selector = ["source", "source.x"] ∧
    (crossedRoot.injections.all fun injection =>
      (Selector.weightOf injection.selector crossedQuery.scope).applies) = true ∧
    crossedEngine.InjectionYields Selector.weightOf crossedQuery ⟨"source.x", ⟨3⟩⟩ firstOutcome ∧
    crossedEngine.InjectionYields Selector.weightOf crossedQuery ⟨"source", ⟨1⟩⟩ secondOutcome ∧
    firstOutcome.Ties secondOutcome ∧ firstOutcome.hit.isEmpty = false ∧
    secondOutcome.hit.isEmpty = false ∧
    (crossedEngine.tree.rule? firstOutcome.rule).map Rule.name = some (some "first") ∧
    (crossedEngine.tree.rule? secondOutcome.rule).map Rule.name = some (some "second") ∧
    ((crossedEngine.first crossedQuery ⟨0⟩ .normal).run.run crossedEngine.newSession).1 =
      .ok secondOutcome ∧
    firstOutcome ≠ secondOutcome :=
  ⟨writtenOfJson_crossedText, by decide, add_crossedText, rfl, by decide +kernel, rfl, by decide,
    by decide +kernel, crossed_yields.2, crossed_yields.1, ⟨rfl, rfl⟩, by decide, by decide,
    by decide +kernel, by decide +kernel, by decide +kernel, by decide⟩

end Builder

end GrammarSearch
