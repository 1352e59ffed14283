import GrammarSearch.Proofs.CompiledContents
import GrammarSearch.Proofs.LoadedGrammars
import GrammarSearch.Proofs.SearchFailures

/-!
# Closed trees

A builder is closed if every handle that stands anywhere in it is that of a rule which is there:
those of children and of targets of injections, of the roots and the repositories of the grammars,
and of the injections that wait.  A new builder is closed, and adding a grammar keeps it closed
(`Builder.Closed.addGrammar_ok`): what is compiled refers to rules that are there, and what is
injected has the new root as its target.  A grammar that fails leaves nothing behind that could
refer to the rules it loses.

A search goes from a rule to its children and to the targets of its injections only.  So in a tree
of grammars it never asks for a rule that is not there, whatever it remembers
(`Builder.loaded_trees_have_no_unknown_rule`).
-/

namespace GrammarSearch

/-- All rules that a rule refers to have handles below a bound. -/
structure Rule.RefersBelow (bound : Nat) (rule : Rule) : Prop where
  child_lt : ∀ child ∈ rule.children, child.index < bound
  target_lt : ∀ injection ∈ rule.injections, injection.target.index < bound

theorem Rule.Contained.refersBelow {bound : Nat} {rule : Rule} (h : rule.Contained bound) :
    rule.RefersBelow bound where
  child_lt := h.child_lt
  target_lt := by
    rw [h.injections_eq]
    exact fun injection hMem => absurd hMem List.not_mem_nil

namespace Rule.RefersBelow

variable {bound : Nat} {rule : Rule}

theorem mono (h : rule.RefersBelow bound) {larger : Nat} (hLarger : bound ≤ larger) :
    rule.RefersBelow larger where
  child_lt child hMem := Nat.lt_of_lt_of_le (h.child_lt child hMem) hLarger
  target_lt injection hMem := Nat.lt_of_lt_of_le (h.target_lt injection hMem) hLarger

theorem addInjections (h : rule.RefersBelow bound) {injections : List Injection}
    (hInjections : ∀ injection ∈ injections, injection.target.index < bound) :
    (rule.addInjections injections).RefersBelow bound where
  child_lt := h.child_lt
  target_lt := by
    intro injection hMem
    rcases List.mem_append.1 hMem with hOld | hNew
    · exact h.target_lt injection hOld
    · exact hInjections injection hNew

end Rule.RefersBelow

/-- Whatever a grammar injects has its root as the target. -/
theorem GrammarSource.target_of_mem_injected {source : GrammarSource} {root : NodeId}
    {chosen : String → Bool} {injection : Injection}
    (hMem : injection ∈ source.injected root chosen) : injection.target = root := by
  rw [injected] at hMem
  split at hMem
  · rw [(List.mem_replicate.1 hMem).2]
  · exact absurd hMem List.not_mem_nil

/-- So does what waits. -/
theorem GrammarSource.target_of_mem_deferred {source : GrammarSource} {root : NodeId}
    {roots : Table NodeId} {entry : String × Injection}
    (hMem : entry ∈ source.deferred root roots) : entry.2.target = root := by
  rw [deferred] at hMem
  split at hMem
  · obtain ⟨target, -, rfl⟩ := List.mem_map.1 hMem
    rfl
  · exact absurd hMem List.not_mem_nil

/-- A rule of a tree refers only to rules of the tree. -/
def Tree.Closed (tree : Tree) : Prop :=
  ∀ node rule, tree.rule? node = some rule → rule.RefersBelow tree.size

namespace Builder

open Compilation

/-- Every handle that stands in the tables of a builder, or waits to be injected, is that of a rule
which is there. -/
structure TablesClosed (builder : Builder) : Prop where
  roots_closed : ∀ scope root, (scope, root) ∈ builder.roots → root.index < builder.rules.size
  repositories_closed : ∀ scope repository, (scope, repository) ∈ builder.repositories →
    ∀ name node, (name, node) ∈ repository → node.index < builder.rules.size
  pending_closed : ∀ scope injection, (scope, injection) ∈ builder.pending →
    injection.target.index < builder.rules.size

/-- Every handle that stands in a builder is that of a rule which is there. -/
structure Closed (builder : Builder) : Prop extends TablesClosed builder where
  rules_closed : ∀ (index : Nat) (rule : Rule), builder.rules[index]? = some rule →
    rule.RefersBelow builder.rules.size

variable {builder after : Builder} {source : GrammarSource} {root : NodeId}

/-- At the top of a grammar, a name alone is that of an entry of its own repository. -/
theorem localEntry_scoping (builder : Builder) (source : GrammarSource) (name : String) :
    Scoping.localEntry? (builder.scoping source) name =
      (builder.scoping source).own.lookup name := by
  simp only [scoping, Scoping.localEntry?, List.nil_append, List.findSome?_singleton]

namespace TablesClosed

theorem empty : ({} : Builder).TablesClosed where
  roots_closed _ _ hMem := absurd hMem List.not_mem_nil
  repositories_closed _ _ hMem := absurd hMem List.not_mem_nil
  pending_closed _ _ hMem := absurd hMem List.not_mem_nil

/-- Rules may be added and changed. -/
theorem of_rules (h : builder.TablesClosed) {changed : Builder}
    (hRoots : changed.roots = builder.roots)
    (hRepositories : changed.repositories = builder.repositories)
    (hPending : changed.pending = builder.pending)
    (hSize : builder.rules.size ≤ changed.rules.size) : changed.TablesClosed where
  roots_closed scope root hMem :=
    Nat.lt_of_lt_of_le (h.roots_closed scope root (hRoots ▸ hMem)) hSize
  repositories_closed scope repository hMem name node hEntry :=
    Nat.lt_of_lt_of_le (h.repositories_closed scope repository (hRepositories ▸ hMem) name node
      hEntry) hSize
  pending_closed scope injection hMem :=
    Nat.lt_of_lt_of_le (h.pending_closed scope injection (hPending ▸ hMem)) hSize

/-- At the top of a grammar with a scope name, an include refers to the root, or to an entry of the
grammar's repository, or to a rule that was there, if to any. -/
theorem resolve?_cases (h : builder.TablesClosed) (scopeName target : String) :
    (∀ source : GrammarSource, source.scopeName = scopeName →
      (builder.scoping source).resolve? target = some ⟨builder.rules.size⟩) ∨
    (∃ name, ∀ source : GrammarSource, source.scopeName = scopeName →
      (builder.scoping source).resolve? target = (builder.scoping source).own.lookup name) ∨
    ∃ found : Option NodeId, (∀ node ∈ found, node.index < builder.rules.size) ∧
      ∀ source : GrammarSource, source.scopeName = scopeName →
        (builder.scoping source).resolve? target = found := by
  by_cases hSelf : target = "$self" ∨ target = "$base"
  · refine .inl fun source _ => ?_
    simp only [Scoping.resolve?, if_pos hSelf, scoping]
  rcases hSplit : Scoping.splitScope? target.toList with _ | ⟨_ | ⟨letter, scope⟩, name⟩
  · by_cases hOwn : target = scopeName
    · refine .inl fun source hScope => ?_
      simp only [Scoping.resolve?, if_neg hSelf, hSplit, Scoping.scopeRoot?, scoping, hScope,
        if_pos hOwn]
    · refine .inr (.inr ⟨builder.roots.lookup target, fun node hFound => ?_,
        fun source hScope => ?_⟩)
      · exact h.roots_closed _ node (Table.mem_of_lookup hFound)
      · simp only [Scoping.resolve?, if_neg hSelf, hSplit, Scoping.scopeRoot?, scoping, hScope,
          if_neg hOwn]
  · refine .inr (.inl ⟨String.ofList name, fun source _ => ?_⟩)
    simp only [Scoping.resolve?, if_neg hSelf, hSplit, localEntry_scoping]
  · by_cases hOwn : String.ofList (letter :: scope) = scopeName
    · refine .inr (.inl ⟨String.ofList name, fun source hScope => ?_⟩)
      simp only [Scoping.resolve?, if_neg hSelf, hSplit, Scoping.scopeEntry?, scoping, hScope,
        if_pos hOwn]
    · refine .inr (.inr ⟨(builder.repositories.lookup (String.ofList (letter :: scope))).bind
        fun repository => repository.lookup (String.ofList name), fun node hFound => ?_,
        fun source hScope => ?_⟩)
      · obtain ⟨repository, hRepository, hEntry⟩ := Option.bind_eq_some_iff.1 hFound
        exact h.repositories_closed _ _ (Table.mem_of_lookup hRepository) _ _
          (Table.mem_of_lookup hEntry)
      · simp only [Scoping.resolve?, if_neg hSelf, hSplit, Scoping.scopeEntry?, scoping, hScope,
          if_neg hOwn]

/-- The includes of a grammar refer to rules that are there, or to places that its root and its
repository get. -/
theorem below_scoping (h : builder.TablesClosed) (source : GrammarSource) :
    (builder.scoping source).Below (builder.rules.size + 1 + source.repository.length) := by
  intro target node hFound
  rcases h.resolve?_cases source.scopeName target with hRoot | ⟨name, hOwn⟩ | ⟨found, hOld, hSame⟩
  · rw [hRoot source rfl] at hFound
    cases hFound
    show builder.rules.size < _
    omega
  · rw [hOwn source rfl] at hFound
    exact (index_lt_of_mem_entryHandles (Table.mem_of_lookup hFound)).2
  · rw [hSame source rfl] at hFound
    have hThere := hOld node hFound
    omega

/-- A grammar that goes through leaves closed tables closed. -/
theorem addGrammar_ok (h : builder.TablesClosed)
    (hAdd : builder.addGrammar source = (.ok root, after)) : after.TablesClosed := by
  obtain ⟨hRoots, hRepositories, hPlaces⟩ := tables_of_addGrammar_ok hAdd
  obtain ⟨hRoot, written, compiled, hRun, -⟩ := exists_of_addGrammar_ok hAdd
  have hGrows : builder.rules.size ≤ after.rules.size := by
    rw [hRoot] at hPlaces
    have hPlace : builder.rules.size + source.repository.length < after.rules.size := hPlaces
    omega
  refine ⟨?_, ?_, ?_⟩
  · intro scope other hMem
    rw [hRoots] at hMem
    rcases Table.mem_put hMem with hNew | hOld
    · cases hNew
      omega
    · exact Nat.lt_of_lt_of_le (h.roots_closed scope other hOld) hGrows
  · intro scope repository hMem name node hEntry
    rw [hRepositories] at hMem
    rcases Table.mem_put hMem with hNew | hOld
    · cases hNew
      have hOwn := (index_lt_of_mem_entryHandles hEntry).2
      have hBound : root.index + 1 + source.repository.length ≤ after.rules.size := by omega
      exact Nat.lt_of_lt_of_le hOwn hBound
    · exact Nat.lt_of_lt_of_le (h.repositories_closed scope repository hOld name node hEntry) hGrows
  · intro scope injection hMem
    rw [← mem_waiting_iff, waiting_of_addGrammar_ok hAdd] at hMem
    split at hMem
    · exact absurd hMem List.not_mem_nil
    rcases List.mem_append.1 hMem with hOld | hNew
    · exact Nat.lt_of_lt_of_le (h.pending_closed _ _ (mem_waiting_iff.1 hOld)) hGrows
    split at hNew
    · rw [GrammarSource.target_of_mem_injected hNew]
      omega
    · exact absurd hNew List.not_mem_nil

end TablesClosed

namespace Closed

theorem empty : ({} : Builder).Closed where
  toTablesClosed := .empty
  rules_closed _ _ hRule := absurd hRule (by simp)

/-- Rules that were there are as they were, those behind the root are as they were compiled, and
each of them, as well as the root, gains injections of grammars that are there. -/
theorem rules_of_addGrammar_ok (h : builder.Closed)
    (hAdd : builder.addGrammar source = (.ok root, after)) (index : Nat) (rule : Rule)
    (hRule : after.rules[index]? = some rule) : rule.RefersBelow after.rules.size := by
  obtain ⟨hRoot, written, compiled, hRun, -⟩ := exists_of_addGrammar_ok hAdd
  obtain ⟨hNew, hChildren, hTargets⟩ := contained_of_compileRoot (h.below_scoping source) hRun
  have hSize : after.rules.size = compiled.rules.size := size_of_addGrammar_ok hRun hAdd
  have hExtends := (confined_compileRoot (builder.scoping source) source).of_run hRun
  have hGrows := hExtends.size_le
  have hRootThere : root.index < after.rules.size :=
    Nat.lt_of_le_of_lt (Nat.le_add_right _ _) (tables_of_addGrammar_ok hAdd).2.2
  have hInjected {chosen : String → Bool} : ∀ injection ∈ source.injected root chosen,
      injection.target.index < after.rules.size := by
    intro injection hMem
    rwa [GrammarSource.target_of_mem_injected hMem]
  -- The root alone was given injections of its own grammar and those that waited.
  by_cases hIndex : index = root.index
  · subst hIndex
    rw [root_of_addGrammar_ok hRun hAdd] at hRule
    cases hRule
    rw [← hSize] at hChildren hTargets
    refine Rule.RefersBelow.addInjections ⟨hChildren, hTargets⟩ fun injection hMem => ?_
    rcases List.mem_append.1 hMem with hOwn | hWaiting
    · exact hInjected injection hOwn
    · have hOld := h.pending_closed _ _ (mem_waiting_iff.1 hWaiting)
      omega
  · rw [Builder.rules_of_addGrammar_ok hRun hAdd hIndex] at hRule
    obtain ⟨earlier, hEarlier, rfl⟩ := Option.map_eq_some_iff.1 hRule
    refine Rule.RefersBelow.addInjections ?_ hInjected
    rw [hSize]
    by_cases hOld : index < builder.rules.size
    · rw [hExtends.kept index hOld id] at hEarlier
      exact (h.rules_closed index earlier hEarlier).mono hGrows
    · exact (hNew index earlier (Nat.not_lt.1 hOld) hEarlier).refersBelow

/-- A grammar that goes through leaves a closed builder closed. -/
theorem addGrammar_ok (h : builder.Closed)
    (hAdd : builder.addGrammar source = (.ok root, after)) : after.Closed where
  toTablesClosed := h.toTablesClosed.addGrammar_ok hAdd
  rules_closed := h.rules_of_addGrammar_ok hAdd

theorem tree (h : builder.Closed) : builder.build.Closed :=
  fun node rule hRule => h.rules_closed node.index rule hRule

end Closed

/-- Whatever a host does with a builder, its tables are closed: only rules can be made to refer to
anything. -/
theorem Built.tablesClosed {loaded : List Loaded} (hBuilt : Built loaded builder) :
    builder.TablesClosed :=
  Built.induction (motive := fun _ builder => builder.TablesClosed) .empty
    (fun hClosed => hClosed.of_rules) TablesClosed.addGrammar_ok hBuilt

/-- However grammars are loaded, the builder is closed. -/
theorem closed_load (forms : List GrammarForm) : (load forms).2.Closed :=
  load_induction (motive := fun _ builder => builder.Closed) .empty Closed.addGrammar_ok forms

end Builder

/-! ## Searching a closed tree -/

namespace Search

variable {σ α : Type}

/-- The search never fails because a rule is not there. -/
def NeverLost (search : Search σ α) : Prop :=
  ∀ session node, (search.run.run session).1 ≠ .error (.unknownNode node)

/-- Never failing in this way is a condition on the failures of a search. -/
theorem neverLost_iff_failsOnly {search : Search σ α} :
    NeverLost search ↔ FailsOnly (fun failure => ∀ node, failure ≠ .unknownNode node) search := by
  constructor
  · intro h session failure hFails node hUnknown
    exact h session node (hUnknown ▸ hFails)
  · intro h session node hFails
    exact h session _ hFails node rfl

end Search

namespace Engine

open Search

variable {σ : Type} {engine : Engine σ} {query : Query} {visit : Visit (Search σ)}

/-- Visiting a rule that is there never fails because one is not. -/
def VisitsFind (engine : Engine σ) (visit : Visit (Search σ)) : Prop :=
  ∀ node priority, node.index < engine.tree.size → NeverLost (visit node priority)

/-- A handle below the size of a tree has a rule. -/
theorem exists_rule {tree : Tree} {node : NodeId} (hNode : node.index < tree.size) :
    ∃ rule, tree.rule? node = some rule :=
  ⟨_, Array.getElem?_eq_getElem hNode⟩

theorem neverLost_explore (hClosed : engine.tree.Closed) (hVisit : engine.VisitsFind visit) :
    engine.VisitsFind (engine.explore query engine.weigh visit) := by
  intro node priority hNode
  obtain ⟨rule, hRule⟩ := exists_rule hNode
  obtain ⟨hChildren, hTargets⟩ := hClosed node rule hRule
  have hSame {other : Rule} (hOther : engine.tree.rule? node = some other) : rule = other :=
    Option.some.inj (hRule.symm.trans hOther)
  rw [neverLost_iff_failsOnly]
  refine failsOnly_explore (by simp) (by simp [hRule]) ?_ ?_
  · intro other hOther child hChild
    have hThere := hChildren child (hSame hOther ▸ hChild)
    obtain ⟨found, hFound⟩ := exists_rule hThere
    refine ⟨by simp [hFound], fun _ _ _ => ?_⟩
    exact neverLost_iff_failsOnly.1 (hVisit child priority hThere)
  · intro other hOther injection hInjection state _
    have hThere := hTargets injection (hSame hOther ▸ hInjection)
    exact neverLost_iff_failsOnly.1 (hVisit _ _ hThere)

/-- In a closed tree a search visits only rules that are there: by induction on its budget. -/
theorem neverLost_visit (hClosed : engine.tree.Closed) (query : Query) (budget : Nat) :
    engine.VisitsFind (engine.visit query budget) := by
  induction budget with
  | zero =>
    intro node priority hNode
    rw [visit, neverLost_iff_failsOnly]
    exact failsOnly_checkToken (by simp) (failsOnly_throw (by simp))
  | succ budget ih =>
    intro node priority hNode
    rw [visit, neverLost_iff_failsOnly]
    have hExplore : (engine.explore query engine.weigh (engine.visit query budget) node
        priority).NeverLost := neverLost_explore hClosed ih node priority hNode
    exact failsOnly_checkToken (by simp)
      (failsOnly_remember (neverLost_iff_failsOnly.1 hExplore))

end Engine

namespace Builder

/-- However grammars are added to a new builder, and whether they go through or not, every handle
in the builder is that of a rule which is there.  A search of its tree from such a rule, in any
session, never fails because a rule is not there. -/
theorem loaded_trees_have_no_unknown_rule (forms : List GrammarForm) :
    (load forms).2.Closed ∧
    ∀ {σ : Type} (engine : Engine σ), engine.tree = (load forms).2.build →
      ∀ (node : NodeId), node.index < engine.tree.size →
      ∀ (query : Query) (priority : Priority) (session : Session σ) (unknown : NodeId),
        ((engine.first query node priority).run.run session).1 ≠ .error (.unknownNode unknown) := by
  refine ⟨closed_load forms, fun engine hTree node hNode query priority session unknown => ?_⟩
  have hClosed : engine.tree.Closed := by
    rw [hTree]
    exact (closed_load forms).tree
  exact Engine.neverLost_visit hClosed query _ node priority hNode session unknown

/-- A grammar that is injected into two others is handed over before, between and after them, and
the first time the grammar that it includes is not there. -/
def repeatedForms : List GrammarForm :=
  [.source guestGrammar, .source (letterGrammar "host" "a"), .source guestGrammar,
    .source (letterGrammar "other" "b"), .source (letterGrammar "host" "c"), .source guestGrammar]

/-- An engine over the grammars that went through. -/
def repeatedEngine : Engine Unit where
  tree := (load repeatedForms).2.build
  weigher := .selectors

/-- Five of the six go through, and the second host has the third guest injected into it. -/
theorem repeated_forms_have_no_unknown_rule :
    (load repeatedForms).1.map Loaded.root = [⟨7⟩, ⟨5⟩, ⟨3⟩, ⟨2⟩, ⟨0⟩] ∧
    (load repeatedForms).2.Closed ∧
    repeatedEngine.tree = (load repeatedForms).2.build ∧
    (⟨5⟩ : NodeId).index < repeatedEngine.tree.size ∧
    ∀ query priority unknown,
      ((repeatedEngine.first query ⟨5⟩ priority).run.run repeatedEngine.newSession).1 ≠
        .error (.unknownNode unknown) := by
  have hRoots : (load repeatedForms).1.map Loaded.root = [⟨7⟩, ⟨5⟩, ⟨3⟩, ⟨2⟩, ⟨0⟩] := by
    decide +kernel
  have hNode : (⟨5⟩ : NodeId).index < repeatedEngine.tree.size := by decide +kernel
  obtain ⟨hClosed, hFirst⟩ := loaded_trees_have_no_unknown_rule repeatedForms
  exact ⟨hRoots, hClosed, rfl, hNode, fun query priority unknown =>
    hFirst repeatedEngine rfl ⟨5⟩ hNode query priority repeatedEngine.newSession unknown⟩

end Builder

end GrammarSearch
