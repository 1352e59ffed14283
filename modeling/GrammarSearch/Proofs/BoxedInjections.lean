import GrammarSearch.Proofs.BoxedGrammars
import GrammarSearch.Proofs.InjectionGating
import GrammarSearch.Proofs.RelistedGrammars

/-!
# An injected rule takes part as a group

The target of an injection is visited for what is under it, whatever it is itself: a pattern of its
own is never run.  So an injected rule counts for as much as a container around the same rule
without its patterns (`Builder.injected_rule_takes_part_as_group`).

Two searches are compared that both give an answer, one in each tree, by induction on the budget of
the first (`Boxing.movesVisit_plain`).  The second goes through the box on its way to the rule in
it, and both stop early at the same children, since the same groups reach injections.
-/

namespace GrammarSearch

/-- The outcome of the same match for a rule with another handle. -/
def Outcome.renumber (rename : NodeId → NodeId) (outcome : Outcome) : Outcome :=
  { outcome with rule := rename outcome.rule }

namespace Boxing

variable {boxing : Boxing} {rules others : Array Rule} {node : NodeId} {rule newRule : Rule}

/-! ## Rules and flags -/

theorem MovesRules.exists_new (h : boxing.MovesRules rules others)
    (hRule : rules[node.index]? = some rule) :
    ∃ newRule, others[(boxing.move node).index]? = some newRule ∧
      boxing.MovesRule node rule newRule := by
  have hMoved := h.moved node
  rw [hRule] at hMoved
  generalize others[(boxing.move node).index]? = found at hMoved
  cases hMoved with
  | some hMoves => exact ⟨_, rfl, hMoves⟩

theorem MovesRules.exists_old (h : boxing.MovesRules rules others)
    (hRule : others[(boxing.move node).index]? = some newRule) :
    ∃ rule, rules[node.index]? = some rule ∧ boxing.MovesRule node rule newRule := by
  have hMoved := h.moved node
  rw [hRule] at hMoved
  generalize rules[node.index]? = found at hMoved
  cases hMoved with
  | some hMoves => exact ⟨_, rfl, hMoves⟩

theorem map_name_eq {found newFound : Option Rule}
    (h : Option.Rel (boxing.MovesRule node) found newFound) :
    newFound.map Rule.name = found.map Rule.name := by
  cases h with
  | some hMoves => exact congrArg some hMoves.name_eq
  | none => rfl

theorem eq_map_move {found newFound : Option NodeId} (h : Option.Rel boxing.Moves found newFound) :
    newFound = found.map boxing.move := by
  cases h with
  | some hNodes => exact congrArg some hNodes.1
  | none => rfl

theorem MovesRule.isGroup_eq (h : boxing.MovesRule node rule newRule) (hNode : ¬ boxing.Bare node) :
    newRule.isGroup = rule.isGroup := by
  rw [Rule.isGroup, Rule.isGroup, h.kind_eq hNode]

theorem MovesRule.injects_eq (h : boxing.MovesRule node rule newRule) (hNode : ¬ boxing.Bare node) :
    newRule.injects = rule.injects := by
  have hNone : newRule.injections.isEmpty = rule.injections.isEmpty := by
    have hInjections := h.injections
    generalize rule.injections = old at hInjections
    generalize newRule.injections = new at hInjections
    cases hInjections <;> rfl
  rw [Rule.injects, Rule.injects, h.isGroup_eq hNode, hNone]

/-- The box is on no way through groups, so rules reach injections as before. -/
theorem MovesRules.reaches_iff (h : boxing.MovesRules rules others) (hNode : ¬ boxing.Bare node) :
    Rule.Reaches others.toList (boxing.move node) ↔ Rule.Reaches rules.toList node := by
  constructor
  · intro hReaches
    generalize hMoved : boxing.move node = moved at hReaches
    induction hReaches generalizing node with
    | injects hRule hInjects =>
      subst hMoved
      obtain ⟨rule, hOld, hMoves⟩ := h.exists_old (by simpa using hRule)
      exact .injects (by simpa using hOld) (hMoves.injects_eq hNode ▸ hInjects)
    | child hRule hGroup hChild _ ih =>
      subst hMoved
      obtain ⟨rule, hOld, hMoves⟩ := h.exists_old (by simpa using hRule)
      obtain ⟨child, hMem, hSame, hNotBare⟩ := exists_related_of_mem hMoves.children.flip hChild
      exact .child (by simpa using hOld) (hMoves.isGroup_eq hNode ▸ hGroup) hMem
        (ih hNotBare hSame.symm)
  · intro hReaches
    induction hReaches with
    | injects hRule hInjects =>
      obtain ⟨newRule, hNew, hMoves⟩ := h.exists_new (by simpa using hRule)
      exact .injects (by simpa using hNew) (hMoves.injects_eq hNode ▸ hInjects)
    | child hRule hGroup hChild _ ih =>
      obtain ⟨newRule, hNew, hMoves⟩ := h.exists_new (by simpa using hRule)
      obtain ⟨newChild, hMem, rfl, hNotBare⟩ := exists_related_of_mem hMoves.children hChild
      exact .child (by simpa using hNew) (hMoves.isGroup_eq hNode ▸ hGroup) hMem (ih hNotBare)

/-- The same groups may raise the priority. -/
theorem mayRaisePriority_moved {builder newBuilder : Builder}
    (h : boxing.MovesRules builder.rules newBuilder.rules) (hNode : ¬ boxing.Bare node) :
    newBuilder.build.mayRaisePriority (boxing.move node) = builder.build.mayRaisePriority node := by
  rw [Tree.mayRaisePriority_build, Tree.mayRaisePriority_build, Bool.eq_iff_iff,
    Rule.flagAt_reachInjections_iff, Rule.flagAt_reachInjections_iff]
  exact h.reaches_iff hNode

/-! ## Outcomes -/

/-- The outcome of a rule that has moved. What is found is not a match of the rule in the box. -/
structure MovesOutcome (boxing : Boxing) (outcome other : Outcome) : Prop where
  eq_renumber : other = outcome.renumber boxing.move
  not_bare : outcome.found = true → ¬ boxing.Bare outcome.rule

/-- Outcomes that count for as much in a merge. -/
def MovesFound (boxing : Boxing) (outcome other : Outcome) : Prop :=
  outcome.found = false ∧ other.found = false ∨ boxing.MovesOutcome outcome other

theorem movesOutcome_nothing (node : NodeId) :
    boxing.MovesOutcome (.nothing node) (.nothing (boxing.move node)) :=
  ⟨rfl, fun hFound => nomatch hFound⟩

theorem isSolid_renumber {tree newTree : Tree} (h : boxing.MovesRules tree.rules newTree.rules)
    {outcome : Outcome} (hRule : ¬ boxing.Bare outcome.rule) :
    (outcome.renumber boxing.move).isSolid newTree = outcome.isSolid tree := by
  have hBegin : (newTree.rule? (boxing.move outcome.rule)).any Rule.hasBegin =
      (tree.rule? outcome.rule).any Rule.hasBegin := by
    have hMoved := h.moved outcome.rule
    rw [Tree.rule?, Tree.rule?]
    generalize tree.rules[outcome.rule.index]? = old at hMoved
    generalize newTree.rules[(boxing.move outcome.rule).index]? = new at hMoved
    cases hMoved with
    | some hMoves => exact hMoves.hasBegin_eq hRule
    | none => rfl
  exact congrArg (!outcome.hit.isEmpty || ·) hBegin

/-- Merges take the same side. -/
theorem movesOutcome_better {tree newTree : Tree} (h : boxing.MovesRules tree.rules newTree.rules)
    {old newOld new newNew : Outcome} (hOld : boxing.MovesOutcome old newOld)
    (hNew : boxing.MovesFound new newNew) :
    boxing.MovesOutcome (.better tree old new) (.better newTree newOld newNew) := by
  rcases hNew with ⟨hNone, hNewNone⟩ | ⟨rfl, hNotBare⟩
  · rw [Outcome.better_of_not_found hNone, Outcome.better_of_not_found hNewNone]
    exact hOld
  rcases Bool.eq_false_or_eq_true new.found with hFound | hNone
  · obtain ⟨rfl, hOldNotBare⟩ := hOld
    constructor
    · rw [Outcome.better_eq_if, Outcome.better_eq_if, isSolid_renumber h (hNotBare hFound)]
      exact (apply_ite (Outcome.renumber boxing.move) _ _ _).symm
    · rcases Outcome.better_eq_or tree old new with hSame | hSame
      · rw [hSame]
        exact hOldNotBare
      · rw [hSame]
        exact hNotBare
  · rw [Outcome.better_of_not_found hNone, Outcome.better_of_not_found (by exact hNone)]
    exact hOld

/-! ## Searches -/

open Engine

variable {σ : Type} {engine other : Engine σ}

/-- Two engines of one dialect with the same options over two trees, the second with the box, whose
content is visited as a group. -/
structure MovesEngine (boxing : Boxing) (engine other : Engine σ) : Prop where
  options_eq : other.options = engine.options
  dialect_eq : other.dialect = engine.dialect
  rules : boxing.MovesRules engine.tree.rules other.tree.rules
  flag_eq : ∀ node, ¬ boxing.Bare node →
    other.tree.mayRaisePriority (boxing.move node) = engine.tree.mayRaisePriority node
  box_eq : other.tree.rule? boxing.box = some { children := [boxing.move boxing.inner] }
  content_isGroup : (other.tree.rule? (boxing.move boxing.inner)).any Rule.isGroup = true

/-- Two visits never give unrelated outcomes. -/
def MovesVisit (boxing : Boxing) (visit newVisit : Visit (Except Failure)) : Prop :=
  ∀ node priority a b, visit node priority = .ok a →
    newVisit (boxing.move node) priority = .ok b → boxing.MovesOutcome a b

variable {weight : String → String → Weight} {query : Query} {priority : Priority}
variable {visit newVisit : Visit (Except Failure)} {best newBest a b : Outcome}

/-- Both searches stop at the same children. -/
theorem MovesEngine.settles_eq (h : boxing.MovesEngine engine other)
    (hBest : boxing.MovesOutcome best newBest) {later newLater : List NodeId}
    (hLater : List.Forall₂ boxing.Moves later newLater) :
    other.settles query priority newBest newLater = engine.settles query priority best later := by
  have hFlags : newLater.any other.tree.mayRaisePriority =
      later.any engine.tree.mayRaisePriority := by
    induction hLater with
    | nil => rfl
    | cons hChild _ ih =>
      obtain ⟨rfl, hNotBare⟩ := hChild
      rw [List.any_cons, List.any_cons, h.flag_eq _ hNotBare, ih]
  obtain ⟨rfl, -⟩ := hBest
  rw [settles, settles, hFlags, h.options_eq]
  rfl

theorem MovesEngine.candidate (h : boxing.MovesEngine engine other)
    (hVisit : boxing.MovesVisit visit newVisit) {child newChild : NodeId}
    (hChild : boxing.Moves child newChild)
    (ha : engine.candidate query visit priority child = .ok a)
    (hb : other.candidate query newVisit priority newChild = .ok b) :
    boxing.MovesOutcome a b := by
  obtain ⟨rfl, hNotBare⟩ := hChild
  obtain ⟨rule, hRule, hKind⟩ := candidate_eq_ok_iff.1 ha
  obtain ⟨newRule, hNewRule, hMoves⟩ := h.rules.exists_new hRule
  have hThere : other.tree.rule? (boxing.move child) = some newRule := hNewRule
  have hSame := hMoves.kind_eq hNotBare
  rcases hKind with ⟨pattern, hit, hPattern, hSearch, rfl⟩ | ⟨hClosing, rfl⟩ | ⟨hGroup, hGiven⟩
  · rw [candidate_of_pattern hThere (hSame ▸ hPattern), h.dialect_eq, hSearch] at hb
    cases hb
    exact ⟨rfl, fun _ => hNotBare⟩
  · rw [candidate_of_closing hThere (hSame.trans hClosing)] at hb
    cases hb
    exact movesOutcome_nothing child
  · rw [candidate_of_group hThere (hSame.trans hGroup)] at hb
    exact hVisit child priority a b hGiven hb

theorem MovesEngine.bestChild (h : boxing.MovesEngine engine other)
    (hVisit : boxing.MovesVisit visit newVisit) {children newChildren : List NodeId}
    (hChildren : List.Forall₂ boxing.Moves children newChildren)
    (hBest : boxing.MovesOutcome best newBest)
    (ha : engine.bestChild query visit priority best children = .ok a)
    (hb : other.bestChild query newVisit priority newBest newChildren = .ok b) :
    boxing.MovesOutcome a b := by
  induction hChildren generalizing best newBest with
  | nil =>
    rw [bestChild_nil_eq_ok_iff.1 ha, bestChild_nil_eq_ok_iff.1 hb]
    exact hBest
  | cons hChild hLater ih =>
    obtain ⟨next, hNext, hRest⟩ := bestChild_cons_eq_ok_iff.1 ha
    obtain ⟨newNext, hNewNext, hNewRest⟩ := bestChild_cons_eq_ok_iff.1 hb
    have hMerged := movesOutcome_better h.rules hBest
      (.inr (h.candidate hVisit hChild hNext hNewNext))
    rw [h.settles_eq hMerged hLater] at hNewRest
    rcases hRest with ⟨hSettles, rfl⟩ | ⟨hOpen, hOn⟩
    · rcases hNewRest with ⟨-, rfl⟩ | ⟨hOpen, -⟩
      · exact hMerged
      · rw [hSettles] at hOpen
        contradiction
    · rcases hNewRest with ⟨hSettles, -⟩ | ⟨-, hNewOn⟩
      · rw [hSettles] at hOpen
        contradiction
      · exact ih hMerged hOn hNewOn

/-- The box gives what the rule in it gives. -/
theorem MovesEngine.box (h : boxing.MovesEngine engine other)
    (hVisit : ∀ budget, boxing.MovesVisit visit (other.plain weight query budget)) {budget : Nat}
    (ha : visit boxing.inner priority = .ok a)
    (hb : other.plain weight query budget boxing.box priority = .ok b) :
    boxing.MovesFound a b := by
  cases budget with
  | zero => cases hb
  | succ budget =>
    obtain ⟨rule, found, injected, hRule, hFound, hInjected, rfl⟩ := explore_eq_ok_iff.1 hb
    rw [h.box_eq] at hRule
    cases hRule
    -- The content is the only child, and its outcome is merged into a missing one.
    rw [bestInjection_nil_eq_ok_iff.1 hInjected, Outcome.better_nothing]
    obtain ⟨next, hNext, hRest⟩ := bestChild_cons_eq_ok_iff.1 hFound
    have hMerged : found = .better other.tree (.nothing boxing.box) next := by
      rcases hRest with ⟨-, hSettled⟩ | ⟨-, hNil⟩
      · exact hSettled
      · exact bestChild_nil_eq_ok_iff.1 hNil
    obtain ⟨content, hContent, hGroup⟩ := (Option.any_eq_true _ _).1 h.content_isGroup
    rw [candidate_of_group hContent (by simpa [Rule.isGroup] using hGroup)] at hNext
    have hMoves := hVisit budget boxing.inner priority a next ha hNext
    rcases Bool.eq_false_or_eq_true next.found with hHit | hMiss
    · rw [hMerged, Outcome.better_of_old_not_found hHit rfl]
      exact .inr hMoves
    · rw [hMerged, Outcome.better_of_not_found hMiss]
      refine .inl ⟨?_, rfl⟩
      rw [hMoves.eq_renumber] at hMiss
      exact hMiss

theorem MovesEngine.bestInjection (h : boxing.MovesEngine engine other)
    (hVisit : ∀ budget, boxing.MovesVisit visit (other.plain weight query budget)) {budget : Nat}
    {injections newInjections : List Injection}
    (hInjections : List.Forall₂ boxing.MovesInjection injections newInjections)
    (hBest : boxing.MovesOutcome best newBest)
    (ha : engine.bestInjection query (weighBy weight) visit best injections = .ok a)
    (hb : other.bestInjection query (weighBy weight) (other.plain weight query budget) newBest
      newInjections = .ok b) : boxing.MovesOutcome a b := by
  induction hInjections generalizing best newBest with
  | nil =>
    rw [bestInjection_nil_eq_ok_iff.1 ha, bestInjection_nil_eq_ok_iff.1 hb]
    exact hBest
  | cons hInjection _ ih =>
    obtain ⟨hSelector, hTarget⟩ := hInjection
    rw [bestInjection_cons_eq_ok_iff] at ha hb
    rw [hSelector] at hb
    rcases ha with ⟨hApplies, next, hNext, hOn⟩ | ⟨hSkipped, hOn⟩
    · rcases hb with ⟨-, newNext, hNewNext, hNewOn⟩ | ⟨hSkipped, -⟩
      · refine ih (movesOutcome_better h.rules hBest ?_) hOn hNewOn
        rcases hTarget with ⟨hMoved, -⟩ | ⟨hInner, hBox⟩
        · rw [hMoved] at hNewNext
          exact .inr (hVisit budget _ _ _ _ hNext hNewNext)
        · rw [hInner] at hNext
          rw [hBox] at hNewNext
          exact h.box hVisit hNext hNewNext
      · rw [hApplies] at hSkipped
        contradiction
    · rcases hb with ⟨hApplies, -⟩ | ⟨-, hNewOn⟩
      · rw [hApplies] at hSkipped
        contradiction
      · exact ih hBest hOn hNewOn

/-- Searches without a memo give related outcomes, whatever their budgets are. -/
theorem movesVisit_plain (h : boxing.MovesEngine engine other) (low high : Nat) :
    boxing.MovesVisit (engine.plain weight query low) (other.plain weight query high) := by
  induction low generalizing high with
  | zero => exact fun _ _ _ _ ha => nomatch ha
  | succ low ih =>
    intro node priority a b ha hb
    cases high with
    | zero => cases hb
    | succ high =>
      obtain ⟨rule, best, injected, hRule, hBest, hInjected, rfl⟩ := explore_eq_ok_iff.1 ha
      obtain ⟨newRule, newBest, newInjected, hNewRule, hNewBest, hNewInjected, rfl⟩ :=
        explore_eq_ok_iff.1 hb
      obtain ⟨_, hThere, hMoves⟩ := h.rules.exists_new hRule
      cases hThere.symm.trans hNewRule
      have hNothing := @movesOutcome_nothing boxing node
      have hChildren := h.bestChild (ih high) hMoves.children hNothing hBest hNewBest
      have hTargets := h.bestInjection ih hMoves.injections hNothing hInjected hNewInjected
      exact movesOutcome_better h.rules hChildren (.inr hTargets)

/-- Where everything has moved, the content of the box is a group, unless it is another rule that is
included and has a pattern. -/
theorem movesEngine_of_builder {builder newBuilder : Builder} {scoping : Scoping}
    {source : RuleSource} (h : boxing.MovesBuilder builder newBuilder)
    (hContent : boxing.IsContent scoping source)
    (hInclude : ∀ target node, source.includes = some target →
      scoping.resolve? target = some node → (builder.build.rule? node).any Rule.isGroup = true)
    (weigher : Weigher σ) (options : SearchOptions) (dialect : Pattern.Dialect) :
    boxing.MovesEngine ⟨builder.build, weigher, options, dialect⟩
      ⟨newBuilder.build, weigher, options, dialect⟩ where
  options_eq := rfl
  dialect_eq := rfl
  rules := h.toMovesRules
  flag_eq _ hNode := mayRaisePriority_moved h.toMovesRules hNode
  box_eq := h.box_eq
  content_isGroup := by
    have hRule : builder.rules[boxing.inner.index]? = some _ :=
      Array.getElem?_eq_getElem h.behind.2
    obtain ⟨newRule, hNewRule, hMoves⟩ := h.exists_new hRule
    have hThere : newBuilder.build.rule? (boxing.move boxing.inner) = some newRule := hNewRule
    rw [hThere, Option.any_some]
    by_cases hBare : boxing.Bare boxing.inner
    · rw [Rule.isGroup, hMoves.kind_of_bare hBare]
      rfl
    · obtain ⟨target, hTarget, hFound⟩ := hContent.resolve_left hBare
      have hOld := hInclude target boxing.inner hTarget hFound
      have hKnown : builder.build.rule? boxing.inner = some _ := hRule
      rw [hKnown, Option.any_some] at hOld
      rw [hMoves.isGroup_eq hBare, hOld]

end Boxing

namespace Builder

variable {before after : List GrammarForm} {grammar : GrammarSource} {first last : Table RuleSource}
variable {selector : String} {source : RuleSource} {tree newTree : Tree}

/-- An injected rule takes part as a group.  It may be put in a container without its patterns:
either its grammar fails and nothing changes, or a place is taken for the container, and then two
engines never give different answers but for the handles of rules behind that place.  Where the rule
is an include, it has to include a group. -/
theorem injected_rule_takes_part_as_group
    (hTree : tree = (load (before ++
      .source (grammar.injecting (first ++ (selector, source) :: last)) :: after)).2.build)
    (hNewTree : newTree = (load (before ++
      .source (grammar.injecting (first ++ (selector, source.plain.boxed) :: last)) ::
        after)).2.build)
    (hInclude : ∀ target node, source.includes = some target →
      ((load before).2.scoping grammar).resolve? target = some node →
      (tree.rule? node).any Rule.isGroup = true) :
    newTree = tree ∨ ∃ boxing : Boxing,
      (∀ scope, newTree.root? scope = (tree.root? scope).map boxing.move) ∧
      (∀ node, (newTree.rule? (boxing.move node)).map Rule.name =
        (tree.rule? node).map Rule.name) ∧
      ∀ {σ : Type} (weigher : Weigher σ) (weight : String → String → Weight)
        (options : SearchOptions) (dialect : Pattern.Dialect) (query : Query) (node : NodeId)
        (priority : Priority) (a b : Outcome), weigher.Answers weight →
        (((Engine.mk tree weigher options dialect).first query node priority).run.run
          (Engine.mk tree weigher options dialect).newSession).1 = .ok a →
        (((Engine.mk newTree weigher options dialect).first query (boxing.move node)
          priority).run.run (Engine.mk newTree weigher options dialect).newSession).1 = .ok b →
        b = { a with rule := boxing.move a.rule } := by
  rcases Boxing.load_boxed before after grammar first selector source last with
    hSame | ⟨boxing, hMoves, hContent⟩
  · left
    rw [hTree, hNewTree, hSame]
  right
  subst hTree hNewTree
  refine ⟨boxing, fun scope => ?_, fun node => ?_, ?_⟩
  · have hRoots := hMoves.roots scope
    rw [Tree.root?, Tree.root?]
    exact Boxing.eq_map_move hRoots
  · have hMoved := hMoves.moved node
    rw [Tree.rule?, Tree.rule?]
    exact Boxing.map_name_eq hMoved
  · intro σ weigher weight options dialect query node priority a b hAnswers ha hb
    have hEngine := Boxing.movesEngine_of_builder hMoves hContent hInclude weigher options dialect
    obtain ⟨low, hLow⟩ := Engine.yields_of_first_newSession hAnswers ha
    obtain ⟨high, hHigh⟩ := Engine.yields_of_first_newSession hAnswers hb
    exact (Boxing.movesVisit_plain hEngine low high node priority a b hLow hHigh).eq_renumber

/-- A grammar that injects a rule, and a container of `a` after it. -/
def wordsGrammar (rule : RuleSource) : GrammarSource where
  scopeName := "source.x"
  repository := [("words", { patterns := [{ matchPattern := some "c" }] })]
  injections := [("source", rule), ("source.x", { patterns := [{ matchPattern := some "a" }] })]

/-- An include of the container in the repository of the grammar. -/
def wordsInclude : RuleSource :=
  { includes := some "#words" }

/-- An engine over one grammar. -/
def grammarEngine (grammar : GrammarSource) : Engine Unit where
  tree := (load [.source grammar]).2.build
  weigher := .selectors

/-- A search from the start of a line in the scope of the grammar. -/
def startQuery (text : String) : Query :=
  ⟨⟨0, text⟩, 0, "source.x", ⟨0⟩⟩

/-- What a new session answers for the root of the grammar. -/
def rootAnswer (grammar : GrammarSource) (text : String) : Except Failure Outcome :=
  (((grammarEngine grammar).first (startQuery text) ⟨0⟩ .normal).run.run
    (grammarEngine grammar).newSession).1

set_option maxRecDepth 10000 in
/-- The include refers to a group, and rules behind its container move by one place. -/
theorem rules_move_behind_boxed_include :
    ((load []).2.scoping (wordsGrammar wordsInclude)).resolve? "#words" = some ⟨1⟩ ∧
    ((grammarEngine (wordsGrammar wordsInclude)).tree.rule? ⟨1⟩).any Rule.isGroup = true ∧
    rootAnswer (wordsGrammar wordsInclude) "ba" =
      .ok ⟨⟨4⟩, ⟨[⟨1, 2⟩]⟩, .normal, some ⟨0, "ba"⟩⟩ ∧
    ∃ boxing : Boxing, boxing.move ⟨4⟩ = ⟨5⟩ ∧
      rootAnswer (wordsGrammar wordsInclude.plain.boxed) "ba" =
        .ok ⟨boxing.move ⟨4⟩, ⟨[⟨1, 2⟩]⟩, .normal, some ⟨0, "ba"⟩⟩ := by
  have hFound : ((load []).2.scoping (wordsGrammar wordsInclude)).resolve? "#words" = some ⟨1⟩ := by
    decide +kernel
  have hGroup : ((grammarEngine (wordsGrammar wordsInclude)).tree.rule? ⟨1⟩).any Rule.isGroup =
      true := by decide +kernel
  have hOld : rootAnswer (wordsGrammar wordsInclude) "ba" =
      .ok ⟨⟨4⟩, ⟨[⟨1, 2⟩]⟩, .normal, some ⟨0, "ba"⟩⟩ := by decide +kernel
  have hNew : rootAnswer (wordsGrammar wordsInclude.plain.boxed) "ba" =
      .ok ⟨⟨5⟩, ⟨[⟨1, 2⟩]⟩, .normal, some ⟨0, "ba"⟩⟩ := by decide +kernel
  have hOldRoot : (grammarEngine (wordsGrammar wordsInclude)).tree.root? "source.x" = some ⟨0⟩ := by
    decide +kernel
  have hNewRoot : (grammarEngine (wordsGrammar wordsInclude.plain.boxed)).tree.root? "source.x" =
      some ⟨0⟩ := by decide +kernel
  refine ⟨hFound, hGroup, hOld, ?_⟩
  have hTree (rule : RuleSource) : (grammarEngine (wordsGrammar rule)).tree =
      (load ([] ++ .source ((wordsGrammar wordsInclude).injecting ([] ++ ("source", rule) ::
        [("source.x", { patterns := [{ matchPattern := some "a" }] })])) :: [])).2.build := rfl
  have hBoxed := @injected_rule_takes_part_as_group [] [] (wordsGrammar wordsInclude) []
    [("source.x", { patterns := [{ matchPattern := some "a" }] })] "source" wordsInclude
    _ _ (hTree wordsInclude) (hTree wordsInclude.plain.boxed)
    (by
      rintro target node hTarget hNode
      cases hTarget
      cases hFound.symm.trans hNode
      exact hGroup)
  rcases hBoxed with hSame | ⟨boxing, hRoots, -, hAnswers⟩
  · exact absurd (congrArg Tree.size hSame) (by decide +kernel)
  · have hRoot := hRoots "source.x"
    rw [hOldRoot, hNewRoot, Option.map_some, Option.some_inj] at hRoot
    have hMoved := hAnswers Weigher.selectors Selector.weightOf {} .standard (startQuery "ba") ⟨0⟩
      .normal ⟨⟨4⟩, ⟨[⟨1, 2⟩]⟩, .normal, some ⟨0, "ba"⟩⟩ ⟨⟨5⟩, ⟨[⟨1, 2⟩]⟩, .normal, some ⟨0, "ba"⟩⟩
      (fun _ _ _ => rfl)
    rw [← hRoot] at hMoved
    have hRule : (⟨5⟩ : NodeId) = boxing.move ⟨4⟩ := congrArg Outcome.rule (hMoved hOld hNew)
    exact ⟨boxing, hRule.symm, hRule ▸ hNew⟩

/-- A grammar that injects one rule. -/
def lonelyGrammar (rule : RuleSource) : GrammarSource where
  scopeName := "source.x"
  injections := [("source.x", rule)]

set_option maxRecDepth 10000 in
/-- An injected rule with a pattern matches nothing, and in a container it does. -/
theorem injected_match_lost_outside_container :
    rootAnswer (lonelyGrammar { matchPattern := some "a" }) "a" = .ok (.nothing ⟨0⟩) ∧
    rootAnswer (lonelyGrammar (RuleSource.boxed { matchPattern := some "a" })) "a" =
      .ok ⟨⟨2⟩, ⟨[⟨0, 1⟩]⟩, .normal, some ⟨0, "a"⟩⟩ ∧
    (Outcome.nothing ⟨0⟩).hit.groups ≠ [⟨0, 1⟩] := by
  refine ⟨?_, ?_, ?_⟩
  · decide +kernel
  · decide +kernel
  · decide

end Builder

end GrammarSearch
