import GrammarSearch.Proofs.BoxedRules

/-!
# Grammars with a boxed injection

A rule that a grammar injects is put in a box.  Up to this rule both grammars are compiled in the
same way, and from it on in step, so both fail alike or all rules have moved
(`Boxing.alike_compileRoot`).  The same is then true of the tables of the builder and of what waits
to be injected (`Boxing.MovesBuilder`).  Every grammar added later keeps this: its includes refer to
rules that have moved, and what it injects goes to roots, none of which is the box.
-/

namespace GrammarSearch

/-- The grammar with other injections. -/
def GrammarSource.injecting (grammar : GrammarSource) (injections : Table RuleSource) :
    GrammarSource :=
  { grammar with injections }

/-! ## Parts of a compilation -/

namespace Builder

open Compilation

variable {builder before after compiled : Builder} {scoping : Scoping} {grammar : GrammarSource}
variable {nodes : List NodeId}

/-- Compiling keeps all references inside if what it adds refers to nothing else. -/
theorem refersInside_of_contained (hRefers : before.RefersInside)
    (hKept : before.Extends (fun _ => False) after)
    (hNew : after.ContainedFrom before.rules.size) : after.RefersInside := by
  intro index rule hRule
  by_cases hOld : index < before.rules.size
  · rw [hKept.kept index hOld id] at hRule
    exact (hRefers index rule hRule).mono hKept.size_le
  · exact (hNew index rule (Nat.not_lt.1 hOld) hRule).refersBelow

theorem containedFrom_size (builder : Builder) : builder.ContainedFrom builder.rules.size := by
  intro index rule hIndex hRule
  exact absurd (Array.getElem?_eq_some_iff.1 hRule).1 (Nat.not_lt.2 hIndex)

/-- A grammar but for its injections. -/
def compileBody (scoping : Scoping) (grammar : GrammarSource) : Compilation (List NodeId) := do
  let _ ← reserve 1
  let first ← reserve grammar.repository.length
  compileEntries scoping first grammar.repository
  compileRules scoping grammar.patterns

theorem compileRoot_eq (scoping : Scoping) (grammar : GrammarSource) :
    compileRoot scoping grammar = (do
      let children ← compileBody scoping grammar
      let injections ← compileInjections scoping grammar.injections
      pure { name := some grammar.scopeName, children, injections }) := by
  simp only [compileRoot, compileBody, bind_assoc]

theorem confined_compileBody (scoping : Scoping) (grammar : GrammarSource) :
    Confined (fun _ => False) (compileBody scoping grammar) := by
  refine Confined.reserve_bind fun _ => ?_
  refine Confined.reserve_bind fun first => ?_
  have hEntries := confined_compileEntries scoping first grammar.repository
  refine (hEntries.mono fun index h => .inr h.1).bind fun _ => ?_
  exact (confined_compileRules scoping grammar.patterns).mono fun index h => h.elim

theorem contained_of_compileBody
    (hBelow : scoping.Below (before.rules.size + 1 + grammar.repository.length))
    (hRun : (compileBody scoping grammar).run.run before = (.ok nodes, after)) :
    after.ContainedFrom before.rules.size ∧ (∀ node ∈ nodes, node.index < after.rules.size) ∧
      before.rules.size + 1 + grammar.repository.length ≤ after.rules.size := by
  rw [compileBody, run_reserve_bind, run_reserve_bind] at hRun
  obtain ⟨_, withEntries, hEntries, hPatterns⟩ := exists_of_run_bind hRun
  have hPlaces : ((before.reserved 1).reserved grammar.repository.length).rules.size =
      before.rules.size + 1 + grammar.repository.length := by
    rw [size_reserved, size_reserved]
  have hFirst := ((confined_compileEntries _ _ _).of_run hEntries).size_le
  have hNext := ((confined_compileRules _ _).of_run hPatterns).size_le
  rw [← hPlaces] at hBelow
  have hWithEntries := contained_of_run.2.2 _ _ _ hBelow
    (((containedFrom_size before).reserved 1).reserved _) hEntries
  obtain ⟨hContained, hNodes⟩ :=
    contained_of_run.2.1 _ _ (hBelow.mono hFirst) hWithEntries hPatterns
  exact ⟨hContained, hNodes, by omega⟩

theorem addGrammar_of_error {failure : Failure}
    (hRun : (compileRoot (builder.scoping grammar) grammar).run.run builder =
      (.error failure, compiled)) : builder.addGrammar grammar = (.error failure, builder) := by
  rcases hAdd : builder.addGrammar grammar with ⟨stopped | root, after⟩
  · obtain ⟨rfl, _, hSame⟩ := eq_of_addGrammar_error hAdd
    rw [hRun] at hSame
    cases hSame
    rfl
  · obtain ⟨-, _, _, hSame, -⟩ := exists_of_addGrammar_ok hAdd
    rw [hRun] at hSame
    cases hSame

theorem exists_addGrammar_of_ok {rule : Rule}
    (hRun : (compileRoot (builder.scoping grammar) grammar).run.run builder =
      (.ok rule, compiled)) : ∃ root after, builder.addGrammar grammar = (.ok root, after) := by
  rcases hAdd : builder.addGrammar grammar with ⟨failure | root, after⟩
  · obtain ⟨-, _, hSame⟩ := eq_of_addGrammar_error hAdd
    rw [hRun] at hSame
    cases hSame
  · exact ⟨root, after, rfl⟩

theorem snd_loadNext (state : List Loaded × Builder) (form : GrammarForm) :
    (loadNext state form).2 = (state.2.add form).2 := by
  rw [loadNext]
  split
  · next hAdd => rw [hAdd]
  · next hAdd _ => rw [hAdd]

theorem snd_foldl_loadNext {state newState : List Loaded × Builder}
    (hSame : state.2 = newState.2) (forms : List GrammarForm) :
    (forms.foldl loadNext state).2 = (forms.foldl loadNext newState).2 := by
  induction forms generalizing state newState with
  | nil => exact hSame
  | cons form forms ih =>
    refine ih ?_
    rw [snd_loadNext, snd_loadNext, hSame]

end Builder

namespace Boxing

open Compilation

variable {boxing : Boxing} {rules others : Array Rule}

/-- All rules have moved, and the box has the place that they left. -/
structure Puts (boxing : Boxing) (rules others : Array Rule) : Prop
    extends boxing.MovesRules rules others where
  box_eq : others[boxing.place]? = some { children := [boxing.move boxing.inner] }

variable {scoping : Scoping} {before after : Builder}

/-- The box stays as it is when more is compiled behind it. -/
theorem Puts.of_extends {newBefore newAfter : Builder}
    (h : boxing.Puts before.rules newBefore.rules)
    (hMoves : boxing.MovesRules after.rules newAfter.rules)
    (hKept : newBefore.Extends (fun _ => False) newAfter) :
    boxing.Puts after.rules newAfter.rules where
  toMovesRules := hMoves
  box_eq := by
    rw [hKept.kept _ h.place_lt id]
    exact h.box_eq

/-- A rule, and the same rule in a box. -/
theorem alike_compileRules_boxed (hBelow : scoping.Below before.rules.size)
    (hRefers : before.RefersInside) (source : RuleSource) :
    Alike (fun nodes after others newAfter => ∃ boxing : Boxing,
        boxing.place = before.rules.size ∧ nodes = [boxing.inner] ∧ others = [boxing.box] ∧
          boxing.Puts after.rules newAfter.rules ∧ boxing.IsContent scoping source)
      ((compileRules scoping [source]).run.run before)
      ((compileRules scoping [source.plain.boxed]).run.run before) := by
  rw [run_compileRules_boxed, ← bind_pure (compileRules scoping [source])]
  refine (alike_compileRules_plain hBelow hRefers source).bind ?_
  rintro _ after _ newAfter ⟨boxing, hPlace, rfl, rfl, hMoves, hContent⟩
  rw [← hPlace]
  refine .ok ⟨boxing, rfl, rfl, rfl, ⟨hMoves.writeBox _, ?_⟩, hContent⟩
  exact Array.getElem?_setIfInBounds_self_of_lt hMoves.place_lt

/-- Rules of which one gets a box: what is before it stays, and what is after it moves. -/
theorem alike_compileRules (hBelow : scoping.Below before.rules.size)
    (hRefers : before.RefersInside) (first : List RuleSource) (source : RuleSource)
    (last : List RuleSource) :
    Alike (fun nodes after others newAfter => ∃ boxing : Boxing,
        before.rules.size ≤ boxing.place ∧
          List.Forall₂ boxing.MovesTarget nodes others ∧
          boxing.Puts after.rules newAfter.rules ∧ boxing.IsContent scoping source)
      ((compileRules scoping (first ++ source :: last)).run.run before)
      ((compileRules scoping (first ++ source.plain.boxed :: last)).run.run before) := by
  rw [compileRules_around, compileRules_around]
  refine (Alike.same _).bind ?_
  rintro nodes mid _ _ ⟨hFirst, rfl, rfl⟩
  -- Up to the rule that gets a box there is one compilation, whose rules are in front of the box.
  obtain ⟨hContained, hNodes⟩ :=
    contained_of_run.2.1 _ _ hBelow (Builder.containedFrom_size before) hFirst
  have hKept := (confined_compileRules _ _).of_run hFirst
  have hMid := Builder.refersInside_of_contained hRefers hKept hContained
  have hBelowMid := hBelow.mono hKept.size_le
  refine (alike_compileRules_boxed hBelowMid hMid source).bind ?_
  rintro _ between _ newBetween ⟨boxing, hPlace, rfl, rfl, hPuts, hContent⟩
  rw [← hPlace] at hNodes hBelowMid
  have hScoping := movesScoping_of_below hBelowMid scoping fun _ => rfl
  have hLast := inStep_compile.2.1 scoping last hScoping between newBetween hPuts.toMovesRules
  refine hLast.with_runs.bind ?_
  rintro more after others newAfter ⟨⟨hMore, hMoves⟩, -, hNewLast⟩
  have hAfter := hPuts.of_extends hMoves ((confined_compileRules _ _).of_run hNewLast)
  refine .ok ⟨boxing, ?_, ?_, hAfter, hContent⟩
  · rw [hPlace]
    exact hKept.size_le
  · refine List.rel_append ?_ (.cons (.inr ⟨rfl, rfl⟩) (hMore.imp fun _ _ h => .inl h))
    exact List.forall₂_same.2 fun node hMem => .inl (moves_of_lt (hNodes node hMem))

/-! ## Grammars -/

/-- Targets that have moved, under the same selectors. -/
theorem movesInjections_zipWith {targets newTargets : List NodeId}
    (hTargets : List.Forall₂ boxing.MovesTarget targets newTargets)
    {sources newSources : Table RuleSource}
    (hSelectors : newSources.map (·.1) = sources.map (·.1)) :
    List.Forall₂ boxing.MovesInjection
      (List.zipWith (fun entry target => ⟨entry.1, target⟩) sources targets)
      (List.zipWith (fun entry target => ⟨entry.1, target⟩) newSources newTargets) := by
  induction hTargets generalizing sources newSources with
  | nil =>
    rw [List.zipWith_nil_right, List.zipWith_nil_right]
    exact .nil
  | cons hTarget _ ih =>
    cases sources with
    | nil =>
      cases List.map_eq_nil_iff.1 hSelectors
      exact .nil
    | cons entry sources =>
      cases newSources with
      | nil => contradiction
      | cons newEntry newSources =>
        obtain ⟨hSelector, hOthers⟩ := List.cons_eq_cons.1 hSelectors
        exact .cons ⟨hSelector, hTarget⟩ (ih hOthers)

/-- A grammar of which one injected rule gets a box. Its root and its repository stay in front of
the box. -/
theorem alike_compileRoot (grammar : GrammarSource) (first : Table RuleSource) (selector : String)
    (source : RuleSource) (last : Table RuleSource)
    (hBelow : scoping.Below (before.rules.size + 1 + grammar.repository.length))
    (hRefers : before.RefersInside) :
    Alike (fun rule after other newAfter => ∃ boxing : Boxing,
        before.rules.size + 1 + grammar.repository.length ≤ boxing.place ∧
          boxing.MovesRule ⟨before.rules.size⟩ rule other ∧
          boxing.Puts after.rules newAfter.rules ∧ boxing.IsContent scoping source)
      ((Builder.compileRoot scoping
        (grammar.injecting (first ++ (selector, source) :: last))).run.run before)
      ((Builder.compileRoot scoping
        (grammar.injecting (first ++ (selector, source.plain.boxed) :: last))).run.run before) := by
  rw [Builder.compileRoot_eq, Builder.compileRoot_eq]
  refine (Alike.same _).bind ?_
  rintro children mid _ _ ⟨hRun, rfl, rfl⟩
  obtain ⟨hContained, hChildren, hPlaces⟩ := Builder.contained_of_compileBody hBelow hRun
  have hKept := (Builder.confined_compileBody _ _).of_run hRun
  have hMid := Builder.refersInside_of_contained hRefers hKept hContained
  have hRules := alike_compileRules (hBelow.mono hPlaces) hMid (first.map (·.2)) source
    (last.map (·.2))
  rw [compileInjections, compileInjections, bind_assoc, bind_assoc]
  simp only [GrammarSource.injecting, List.map_append, List.map_cons]
  refine hRules.bind ?_
  rintro targets after newTargets newAfter ⟨boxing, hPlace, hTargets, hPuts, hContent⟩
  refine .ok ⟨boxing, Nat.le_trans hPlaces hPlace, ?_, hPuts, hContent⟩
  exact {
    children := List.forall₂_same.2 fun child hMem =>
      moves_of_lt (Nat.lt_of_lt_of_le (hChildren child hMem) hPlace)
    injections := movesInjections_zipWith hTargets (by simp)
    name_eq := rfl
    kind_eq := fun _ => rfl
    hasBegin_eq := fun _ => rfl
    kind_of_bare := fun _ => rfl }

/-- Compiling a grammar goes in step. -/
theorem inStep_compileRoot {newScoping : Scoping}
    (hScoping : boxing.MovesScoping scoping newScoping)
    (grammar : GrammarSource) {node : NodeId} (hNode : ¬ boxing.Bare node) :
    boxing.InStep (boxing.MovesRule node) (Builder.compileRoot scoping grammar)
      (Builder.compileRoot newScoping grammar) := by
  obtain ⟨-, hRules, hEntries⟩ := @inStep_compile boxing
  rw [Builder.compileRoot_eq, Builder.compileRoot_eq, Builder.compileBody, Builder.compileBody]
  simp only [bind_assoc]
  refine inStep_reserve_bind fun _ _ => ?_
  refine inStep_reserve_bind fun first hBehind => ?_
  refine inStep_bind (hEntries _ _ _ hScoping hBehind) fun _ _ _ => ?_
  refine inStep_bind (hRules _ _ hScoping) fun children others hChildren => ?_
  rw [compileInjections, compileInjections]
  simp only [bind_assoc, pure_bind]
  refine inStep_bind (hRules _ _ hScoping) fun targets newTargets hTargets => ?_
  exact inStep_pure
    { children := hChildren
      injections := movesInjections_zipWith (hTargets.imp fun _ _ h => .inl h) rfl
      name_eq := rfl
      kind_eq := fun _ => rfl
      hasBegin_eq := fun _ => rfl
      kind_of_bare := fun hBare => absurd hBare hNode }

/-! ## Builders -/

/-- The roots and the repositories of grammars have moved, and so has what waits. -/
structure MovesTables (boxing : Boxing) (builder other : Builder) : Prop where
  roots : ∀ scope,
    Option.Rel boxing.Moves (builder.roots.lookup scope) (other.roots.lookup scope)
  repositories : ∀ scope name, Option.Rel boxing.Moves
    ((builder.repositories.lookup scope).bind fun repository => repository.lookup name)
    ((other.repositories.lookup scope).bind fun repository => repository.lookup name)
  waiting : ∀ scope,
    List.Forall₂ boxing.MovesInjection (builder.waiting scope) (other.waiting scope)

/-- Everything in a builder has moved, and the box has the place that was left. -/
structure MovesBuilder (boxing : Boxing) (builder other : Builder) : Prop
    extends boxing.MovesTables builder other, boxing.Puts builder.rules other.rules

variable {builder other newAfter compiled newCompiled : Builder} {grammar : GrammarSource}
variable {injections : Table RuleSource} {root newRoot : NodeId}

theorem eq_some_move_iff {found newFound : Option NodeId}
    (h : Option.Rel boxing.Moves found newFound) (node : NodeId) :
    newFound = some (boxing.move node) ↔ found = some node := by
  cases h with
  | some hNodes =>
    rw [hNodes.1, Option.some_inj, Option.some_inj]
    exact move_injective.eq_iff
  | none => simp

theorem ne_some_box {found newFound : Option NodeId} (h : Option.Rel boxing.Moves found newFound) :
    newFound ≠ some boxing.box := by
  cases h with
  | some hNodes =>
    rw [hNodes.1]
    exact fun hSame => move_ne_box _ (Option.some.inj hSame)
  | none => simp

theorem eq_none_iff {found newFound : Option NodeId} (h : Option.Rel boxing.Moves found newFound) :
    newFound = none ↔ found = none := by
  cases h with
  | some => simp
  | none => simp

/-- A grammar whose root has moved injects it where it did. -/
theorem movesInjections_injected (grammar : GrammarSource) (hRoot : boxing.Moves root newRoot)
    {chosen newChosen : String → Bool} (hSame : ∀ target, newChosen target = chosen target) :
    List.Forall₂ boxing.MovesInjection (grammar.injected root chosen)
      (grammar.injected newRoot newChosen) := by
  rw [funext hSame, GrammarSource.injected, GrammarSource.injected]
  split
  · next selector _ =>
    induction grammar.injectTo.countP chosen with
    | zero => exact .nil
    | succ count ih => exact .cons ⟨rfl, .inl hRoot⟩ ih
  · exact .nil

theorem MovesRule.addInjections {node : NodeId} {rule newRule : Rule}
    (h : boxing.MovesRule node rule newRule) {injections newInjections : List Injection}
    (hInjections : List.Forall₂ boxing.MovesInjection injections newInjections) :
    boxing.MovesRule node (rule.addInjections injections)
      (newRule.addInjections newInjections) where
  children := h.children
  injections := List.rel_append h.injections hInjections
  name_eq := h.name_eq
  kind_eq := h.kind_eq
  hasBegin_eq := h.hasBegin_eq
  kind_of_bare := h.kind_of_bare

theorem rel_addInjections {node : NodeId} {found newFound : Option Rule}
    (h : Option.Rel (boxing.MovesRule node) found newFound)
    {injections newInjections : List Injection}
    (hInjections : List.Forall₂ boxing.MovesInjection injections newInjections) :
    Option.Rel (boxing.MovesRule node) (found.map fun rule => rule.addInjections injections)
      (newFound.map fun rule => rule.addInjections newInjections) := by
  cases h with
  | some hRule => exact .some (hRule.addInjections hInjections)
  | none => exact .none

/-- In front of the box nothing moves. -/
theorem movesTables_of_closed (hClosed : builder.TablesClosed)
    (hPlace : builder.rules.size ≤ boxing.place) : boxing.MovesTables builder builder where
  roots scope := by
    cases hFound : builder.roots.lookup scope with
    | none => exact .none
    | some root =>
      have hRoot := hClosed.roots_closed scope root (Table.mem_of_lookup hFound)
      exact .some (moves_of_lt (Nat.lt_of_lt_of_le hRoot hPlace))
  repositories scope name := by
    cases hFound : builder.repositories.lookup scope with
    | none => exact .none
    | some repository =>
      rw [Option.bind_some]
      cases hEntry : repository.lookup name with
      | none => exact .none
      | some node =>
        have hNode := hClosed.repositories_closed scope repository (Table.mem_of_lookup hFound)
          name node (Table.mem_of_lookup hEntry)
        exact .some (moves_of_lt (Nat.lt_of_lt_of_le hNode hPlace))
  waiting scope := List.forall₂_same.2 fun injection hMem => by
    have hTarget := hClosed.pending_closed scope injection (Builder.mem_waiting_iff.1 hMem)
    exact ⟨rfl, .inl (moves_of_lt (Nat.lt_of_lt_of_le hTarget hPlace))⟩

theorem moves_root (hSize : other.rules.size = builder.rules.size + 1)
    (hBehind : boxing.Behind builder.rules.size) :
    boxing.Moves ⟨builder.rules.size⟩ ⟨other.rules.size⟩ := by
  rw [hSize]
  exact hBehind.moves

theorem moves_own (hSize : other.rules.size = builder.rules.size + 1)
    (hBehind : boxing.Behind builder.rules.size) (grammar : GrammarSource) (name : String) :
    Option.Rel boxing.Moves ((builder.scoping grammar).own.lookup name)
      ((other.scoping grammar).own.lookup name) := by
  simp only [Builder.scoping, hSize]
  exact lookup_entryHandles (hBehind.mono (Nat.le_succ _)) grammar.repository name

/-- What the includes of a grammar refer to has moved. -/
theorem MovesTables.movesScoping (h : boxing.MovesTables builder other)
    (hSize : other.rules.size = builder.rules.size + 1) (hBehind : boxing.Behind builder.rules.size)
    (grammar : GrammarSource) :
    boxing.MovesScoping (builder.scoping grammar) (other.scoping grammar) := by
  have hRoot := moves_root hSize hBehind
  have hOwn := moves_own hSize hBehind grammar
  have hName (before : Builder) : (before.scoping grammar).scopeName = grammar.scopeName := rfl
  intro target
  simp only [Scoping.resolve?]
  split
  · exact .some hRoot
  · split
    · rw [Builder.localEntry_scoping, Builder.localEntry_scoping]
      exact hOwn _
    · simp only [Scoping.scopeEntry?, hName]
      split
      · exact hOwn _
      · exact h.repositories _ _
    · simp only [Scoping.scopeRoot?, hName]
      split
      · exact .some hRoot
      · exact h.roots _

section

variable (hTables : boxing.MovesTables builder other)
variable (hRoot : boxing.Moves ⟨builder.rules.size⟩ ⟨other.rules.size⟩)
variable (hAdd : builder.addGrammar grammar = (.ok root, after))
variable (hNewAdd : other.addGrammar (grammar.injecting injections) = (.ok newRoot, newAfter))

include hTables hRoot hAdd hNewAdd

/-- Two grammars that differ in their injections are entered under one name. -/
theorem movesTables_of_addGrammar
    (hOwn : ∀ name, Option.Rel boxing.Moves ((builder.scoping grammar).own.lookup name)
      ((other.scoping grammar).own.lookup name)) : boxing.MovesTables after newAfter := by
  obtain ⟨hRoots, hRepositories, -⟩ := Builder.tables_of_addGrammar_ok hAdd
  obtain ⟨hNewRoots, hNewRepositories, -⟩ := Builder.tables_of_addGrammar_ok hNewAdd
  have hWaiting := Builder.waiting_of_addGrammar_ok hAdd
  have hNewWaiting := Builder.waiting_of_addGrammar_ok hNewAdd
  obtain ⟨rfl, -⟩ := Builder.exists_of_addGrammar_ok hAdd
  obtain ⟨rfl, -⟩ := Builder.exists_of_addGrammar_ok hNewAdd
  have hName : (grammar.injecting injections).scopeName = grammar.scopeName := rfl
  constructor
  · intro scope
    rw [hRoots, hNewRoots, Table.lookup_put, Table.lookup_put, hName]
    split
    · exact .some hRoot
    · exact hTables.roots scope
  · intro scope name
    rw [hRepositories, hNewRepositories, Table.lookup_put, Table.lookup_put, hName]
    split
    · exact hOwn name
    · exact hTables.repositories scope name
  · intro scope
    rw [hWaiting, hNewWaiting, hName]
    split
    · exact .nil
    · refine List.rel_append (hTables.waiting scope) ?_
      rw [if_congr (eq_none_iff (hTables.roots scope)) rfl rfl]
      split
      · exact movesInjections_injected grammar hRoot fun _ => rfl
      · exact .nil

/-- They are injected into the same grammars, and what waited for one waited for the other. -/
theorem moved_of_addGrammar {rule newRule : Rule}
    (hRun : (Builder.compileRoot (builder.scoping grammar) grammar).run.run builder =
      (.ok rule, compiled))
    (hNewRun : (Builder.compileRoot (other.scoping grammar) (grammar.injecting injections)).run.run
      other = (.ok newRule, newCompiled))
    (hRule : boxing.MovesRule ⟨builder.rules.size⟩ rule newRule)
    (hMoves : boxing.MovesRules compiled.rules newCompiled.rules)
    (hRoots : ∀ scope,
      Option.Rel boxing.Moves (after.roots.lookup scope) (newAfter.roots.lookup scope))
    (node : NodeId) :
    Option.Rel (boxing.MovesRule node) after.rules[node.index]?
      newAfter.rules[(boxing.move node).index]? := by
  have hRules {index : Nat} (hOther : index ≠ root.index) :=
    Builder.rules_of_addGrammar_ok hRun hAdd hOther
  have hNewRules {index : Nat} (hOther : index ≠ newRoot.index) :=
    Builder.rules_of_addGrammar_ok hNewRun hNewAdd hOther
  have hRootRule := Builder.root_of_addGrammar_ok hRun hAdd
  have hNewRootRule := Builder.root_of_addGrammar_ok hNewRun hNewAdd
  obtain ⟨rfl, -⟩ := Builder.exists_of_addGrammar_ok hAdd
  obtain ⟨rfl, -⟩ := Builder.exists_of_addGrammar_ok hNewAdd
  have hPlace : (⟨other.rules.size⟩ : NodeId) = boxing.move ⟨builder.rules.size⟩ := hRoot.1
  rw [hPlace] at hRoot hNewRules hNewRootRule
  -- The new root gains what the grammar injects into itself and what waited for it, any other rule
  -- what the grammar injects into those before it.
  by_cases hSame : node = ⟨builder.rules.size⟩
  · rw [hSame, hRootRule, hNewRootRule]
    refine .some (hRule.addInjections (List.rel_append ?_ (hTables.waiting _)))
    refine movesInjections_injected grammar hRoot fun target => ?_
    rw [decide_eq_decide]
    exact eq_some_move_iff (hRoots target) _
  · have hOther : node.index ≠ builder.rules.size := fun h => hSame (congrArg NodeId.mk h)
    have hNewOther : (boxing.move node).index ≠ (boxing.move ⟨builder.rules.size⟩).index :=
      fun h => hSame (move_injective (congrArg NodeId.mk h))
    rw [hRules hOther, hNewRules hNewOther]
    refine rel_addInjections (hMoves.moved node) ?_
    refine movesInjections_injected grammar hRoot fun target => ?_
    rw [decide_eq_decide]
    exact and_congr_right fun _ => eq_some_move_iff (hTables.roots target) node

omit hAdd in
/-- The box is no root, so that nothing is injected into it. -/
theorem box_of_addGrammar {newRule : Rule}
    (hNewRun : (Builder.compileRoot (other.scoping grammar) (grammar.injecting injections)).run.run
      other = (.ok newRule, newCompiled)) :
    newAfter.rules[boxing.place]? = newCompiled.rules[boxing.place]? := by
  have hNewRules {index : Nat} (hOther : index ≠ newRoot.index) :=
    Builder.rules_of_addGrammar_ok hNewRun hNewAdd hOther
  obtain ⟨rfl, -⟩ := Builder.exists_of_addGrammar_ok hNewAdd
  have hOther : boxing.place ≠ other.rules.size := by
    intro hPlace
    refine move_ne_box ⟨builder.rules.size⟩ (hRoot.1.symm.trans ?_)
    exact congrArg NodeId.mk hPlace.symm
  have hNothing : (grammar.injecting injections).injected ⟨other.rules.size⟩
      (fun target => target ≠ (grammar.injecting injections).scopeName ∧
        other.roots.lookup target = some ⟨boxing.place⟩) = [] := by
    refine GrammarSource.injected_eq_nil fun target _ => decide_eq_false ?_
    exact fun h => ne_some_box (hTables.roots target) h.2
  rw [hNewRules hOther, hNothing]
  simp only [Rule.addInjections_nil, Option.map_id']

/-- All rules have moved when both grammars are there. -/
theorem puts_of_addGrammar {rule newRule : Rule}
    (hRun : (Builder.compileRoot (builder.scoping grammar) grammar).run.run builder =
      (.ok rule, compiled))
    (hNewRun : (Builder.compileRoot (other.scoping grammar) (grammar.injecting injections)).run.run
      other = (.ok newRule, newCompiled))
    (hRule : boxing.MovesRule ⟨builder.rules.size⟩ rule newRule)
    (hPuts : boxing.Puts compiled.rules newCompiled.rules)
    (hRoots : ∀ scope,
      Option.Rel boxing.Moves (after.roots.lookup scope) (newAfter.roots.lookup scope)) :
    boxing.Puts after.rules newAfter.rules where
  size_eq := by
    rw [Builder.size_of_addGrammar_ok hRun hAdd, Builder.size_of_addGrammar_ok hNewRun hNewAdd]
    exact hPuts.size_eq
  behind := by
    rw [Builder.size_of_addGrammar_ok hRun hAdd]
    exact hPuts.behind
  moved := moved_of_addGrammar hTables hRoot hAdd hNewAdd hRun hNewRun hRule hPuts.toMovesRules
    hRoots
  box_eq := (box_of_addGrammar hTables hRoot hNewAdd hNewRun).trans hPuts.box_eq

end

/-- A grammar of which one injected rule gets a box is added: either grammar fails, or everything
has moved. -/
theorem addGrammar_boxed (hClosed : builder.Closed) (grammar : GrammarSource)
    (first : Table RuleSource) (selector : String) (source : RuleSource) (last : Table RuleSource) :
    ((builder.addGrammar (grammar.injecting (first ++ (selector, source) :: last))).2 = builder ∧
      (builder.addGrammar
        (grammar.injecting (first ++ (selector, source.plain.boxed) :: last))).2 = builder) ∨
    ∃ boxing : Boxing,
      boxing.MovesBuilder
        (builder.addGrammar (grammar.injecting (first ++ (selector, source) :: last))).2
        (builder.addGrammar
          (grammar.injecting (first ++ (selector, source.plain.boxed) :: last))).2 ∧
      boxing.IsContent (builder.scoping grammar) source := by
  have hAlike := alike_compileRoot grammar first selector source last
    (hClosed.below_scoping grammar) hClosed.rules_closed
  generalize hRun : (Builder.compileRoot (builder.scoping grammar)
    (grammar.injecting (first ++ (selector, source) :: last))).run.run builder = run at hAlike
  generalize hNewRun : (Builder.compileRoot (builder.scoping grammar)
    (grammar.injecting (first ++ (selector, source.plain.boxed) :: last))).run.run builder =
      newRun at hAlike
  cases hAlike with
  | error failure =>
    rw [Builder.addGrammar_of_error hRun, Builder.addGrammar_of_error hNewRun]
    exact .inl ⟨rfl, rfl⟩
  | ok hBoth =>
    obtain ⟨boxing, hPlace, hRule, hPuts, hContent⟩ := hBoth
    obtain ⟨root, after, hAdd⟩ := Builder.exists_addGrammar_of_ok hRun
    obtain ⟨newRoot, newAfter, hNewAdd⟩ := Builder.exists_addGrammar_of_ok hNewRun
    rw [hAdd, hNewAdd]
    refine .inr ⟨boxing, ?_, hContent⟩
    have hOld : builder.rules.size ≤ boxing.place := by omega
    have hTables := movesTables_of_closed hClosed.toTablesClosed hOld
    have hRoot : boxing.Moves ⟨builder.rules.size⟩ ⟨builder.rules.size⟩ := moves_of_lt (by
      show builder.rules.size < boxing.place
      omega)
    have hOwn (name : String) : Option.Rel boxing.Moves
        ((builder.scoping grammar).own.lookup name)
        ((builder.scoping grammar).own.lookup name) := by
      cases hFound : (builder.scoping grammar).own.lookup name with
      | none => exact .none
      | some node =>
        have hNode := index_lt_of_mem_entryHandles (Table.mem_of_lookup hFound)
        exact .some (moves_of_lt (by omega))
    have hAfter := movesTables_of_addGrammar hTables hRoot hAdd hNewAdd hOwn
    exact ⟨hAfter, puts_of_addGrammar hTables hRoot hAdd hNewAdd hRun hNewRun hRule hPuts
      hAfter.roots⟩

/-- Any other grammar that is added keeps this. -/
theorem MovesBuilder.addGrammar (h : boxing.MovesBuilder builder other) (grammar : GrammarSource) :
    boxing.MovesBuilder (builder.addGrammar grammar).2 (other.addGrammar grammar).2 := by
  have hRoot := moves_root h.size_eq h.behind
  have hOwn := moves_own h.size_eq h.behind grammar
  have hScoping := h.movesScoping h.size_eq h.behind grammar
  have hAlike := (inStep_compileRoot hScoping grammar hRoot.2 builder other h.toMovesRules)
  generalize hRun : (Builder.compileRoot (builder.scoping grammar) grammar).run.run builder =
    run at hAlike
  generalize hNewRun : (Builder.compileRoot (other.scoping grammar) grammar).run.run other =
    newRun at hAlike
  cases hAlike with
  | error failure =>
    rw [Builder.addGrammar_of_error hRun, Builder.addGrammar_of_error hNewRun]
    exact h
  | ok hBoth =>
    obtain ⟨hRule, hMoves⟩ := hBoth
    obtain ⟨root, after, hAdd⟩ := Builder.exists_addGrammar_of_ok hRun
    obtain ⟨newRoot, newAfter, hNewAdd⟩ := Builder.exists_addGrammar_of_ok hNewRun
    rw [hAdd, hNewAdd]
    have hCompiled := h.of_extends hMoves ((Builder.confined_compileRoot _ _).of_run hNewRun)
    have hAfter := movesTables_of_addGrammar h.toMovesTables hRoot hAdd hNewAdd hOwn
    exact ⟨hAfter, puts_of_addGrammar h.toMovesTables hRoot hAdd hNewAdd hRun hNewRun hRule
      hCompiled hAfter.roots⟩

theorem MovesBuilder.add (h : boxing.MovesBuilder builder other) (form : GrammarForm) :
    boxing.MovesBuilder (builder.add form).2 (other.add form).2 := by
  cases hRead : form.read with
  | error failure =>
    rw [Builder.add, Builder.add, hRead]
    exact h
  | ok grammar =>
    rw [Builder.add_eq_of_read hRead, Builder.add_eq_of_read hRead]
    exact h.addGrammar grammar

theorem MovesBuilder.foldl {state newState : List Loaded × Builder}
    (h : boxing.MovesBuilder state.2 newState.2) (forms : List GrammarForm) :
    boxing.MovesBuilder (forms.foldl Builder.loadNext state).2
      (forms.foldl Builder.loadNext newState).2 := by
  induction forms generalizing state newState with
  | nil => exact h
  | cons form forms ih =>
    refine ih ?_
    rw [Builder.snd_loadNext, Builder.snd_loadNext]
    exact h.add form

/-- Grammars are loaded, and one injected rule of one of them gets a box: either that grammar fails,
or everything has moved. -/
theorem load_boxed (before after : List GrammarForm) (grammar : GrammarSource)
    (first : Table RuleSource) (selector : String) (source : RuleSource) (last : Table RuleSource) :
    (Builder.load (before ++
        .source (grammar.injecting (first ++ (selector, source) :: last)) :: after)).2 =
      (Builder.load (before ++
        .source (grammar.injecting (first ++ (selector, source.plain.boxed) :: last)) :: after)).2 ∨
    ∃ boxing : Boxing,
      boxing.MovesBuilder
        (Builder.load (before ++
          .source (grammar.injecting (first ++ (selector, source) :: last)) :: after)).2
        (Builder.load (before ++
          .source (grammar.injecting (first ++ (selector, source.plain.boxed) :: last)) ::
            after)).2 ∧
      boxing.IsContent ((Builder.load before).2.scoping grammar) source := by
  simp only [Builder.load, List.foldl_append, List.foldl_cons]
  rcases addGrammar_boxed (Builder.closed_load before) grammar first selector source last with
    ⟨hLeft, hRight⟩ | ⟨boxing, hMoves, hContent⟩
  · refine .inl (Builder.snd_foldl_loadNext ?_ after)
    rw [Builder.snd_loadNext, Builder.snd_loadNext]
    exact hLeft.trans hRight.symm
  · refine .inr ⟨boxing, MovesBuilder.foldl ?_ after, hContent⟩
    rw [Builder.snd_loadNext, Builder.snd_loadNext]
    exact hMoves

end Boxing

end GrammarSearch
