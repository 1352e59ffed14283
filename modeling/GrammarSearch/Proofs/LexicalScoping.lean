import GrammarSearch.Proofs.CompiledRules

/-!
# Lexical scoping

A grammar is added exactly if every include that counts means something, where names belong to the
rules around them: `Builder.includes_follow_lexical_scope`.  In one direction the rules of a grammar
that went through are those that are written (`Embodies`), so every rule that counts is among them
(`Embodies.of_occurs`), and it could not be if its include meant nothing.  In the other direction a
grammar that fails has an include that means nothing, which the failure names.
-/

namespace GrammarSearch

/-- Rules have a grammar at a root: the entries of its repository at the handles that loaded
grammars have for them, its patterns and injected rules below the root, and whatever else was
injected. -/
structure Embodies (rules : Array Rule) (loaded : List Loaded) (grammar : GrammarSource)
    (root : NodeId) (entries : Table Compiled) (children targets : List Compiled)
    (waiting : List Injection) : Prop where
  repository_eq : entries.mapValues Compiled.source = grammar.repository
  handles_eq : entries.mapValues Compiled.node = Loaded.repository ⟨grammar, root⟩
  entries_compiled : ∀ entry ∈ entries,
    CompiledTo rules loaded grammar.scopeName root [entries] entry.2.source entry.2.node
  patterns_eq : children.map Compiled.source = grammar.patterns
  patterns_stand : ∀ child ∈ children,
    StandsFor rules loaded grammar.scopeName root [entries] child.source child.node
  injections_eq : targets.map Compiled.source = grammar.injections.map Prod.snd
  injections_stand : ∀ target ∈ targets,
    StandsFor rules loaded grammar.scopeName root [entries] target.source target.node
  root_eq : rules[root.index]? = some
    { name := some grammar.scopeName
      children := children.map Compiled.node
      injections := List.zipWith (fun (selector, _) target => ⟨selector, target.node⟩)
        grammar.injections targets ++ waiting }

section

variable {rules : Array Rule} {loaded : List Loaded} {scopeName : String} {root : NodeId}
variable {around : List (Table Compiled)} {source : RuleSource} {node : NodeId}

/-- A rule is among the rules: it stands at a handle, or a handle stands for it. -/
def Settled (rules : Array Rule) (loaded : List Loaded) (scopeName : String) (root : NodeId)
    (around : List (Table Compiled)) (source : RuleSource) : Prop :=
  ∃ node, CompiledTo rules loaded scopeName root around source node ∨
    StandsFor rules loaded scopeName root around source node

/-- The include of a rule that is among the rules means something. -/
theorem Settled.exists_means (hSettled : Settled rules loaded scopeName root around source)
    {target : String} (hInclude : source.includes = some target) :
    ∃ meaning, Means loaded scopeName around target meaning := by
  have hSame {other : String} (hOther : source.includes = some other) : other = target :=
    Option.some.inj (hOther.symm.trans hInclude)
  have hNone (hOwn : source.includes = none) : False := by
    rw [hOwn] at hInclude
    contradiction
  obtain ⟨node, hCompiled | hStands⟩ := hSettled
  · cases hCompiled with
    | included hOther hMeans => exact ⟨_, hSame hOther ▸ hMeans⟩
    | own hOwn => exact (hNone hOwn).elim
  · cases hStands with
    | included hOther hMeans => exact ⟨_, hSame hOther ▸ hMeans⟩
    | own hOwn => exact (hNone hOwn).elim

/-- The rules in the lists of a rule without an include are among the rules too, inside its
repository. -/
theorem Settled.inner (hSettled : Settled rules loaded scopeName root around source)
    (hOwn : source.includes = none) :
    ∃ entries : Table Compiled, entries.mapValues Compiled.source = source.repository ∧
      (∀ rule ∈ source.patterns, Settled rules loaded scopeName root (entries :: around) rule) ∧
      (∀ entry ∈ source.repository,
        Settled rules loaded scopeName root (entries :: around) entry.2) := by
  have hNone {target : String} (hInclude : source.includes = some target) : False := by
    rw [hOwn] at hInclude
    contradiction
  obtain ⟨node, hCompiled⟩ : ∃ node, CompiledTo rules loaded scopeName root around source node := by
    obtain ⟨node, hCompiled | hStands⟩ := hSettled
    · exact ⟨node, hCompiled⟩
    · cases hStands with
      | included hInclude => exact (hNone hInclude).elim
      | own _ hCompiled => exact ⟨node, hCompiled⟩
  cases hCompiled with
  | included hInclude => exact (hNone hInclude).elim
  | @own _ _ entries children _ _ hRepository hEntries hPatterns hChildren _ =>
    refine ⟨entries, hRepository, fun rule hMem => ?_, fun entry hMem => ?_⟩
    · rw [← hPatterns] at hMem
      obtain ⟨child, hChild, rfl⟩ := List.mem_map.1 hMem
      exact ⟨child.node, .inr (hChildren child hChild)⟩
    · rw [← hRepository] at hMem
      obtain ⟨compiled, hCompiled, rfl⟩ := List.mem_map.1 hMem
      exact ⟨compiled.2.node, .inl (hEntries compiled hCompiled)⟩

end

namespace Embodies

variable {rules : Array Rule} {loaded : List Loaded} {grammar : GrammarSource} {root : NodeId}
variable {entries : Table Compiled} {children targets : List Compiled} {waiting : List Injection}

/-- Every rule that counts is somewhere among the rules. -/
theorem of_occurs (hEmbodies : Embodies rules loaded grammar root entries children targets waiting)
    {around : List (Table RuleSource)} {rule : RuleSource} (hOccurs : grammar.Occurs around rule) :
    ∃ compiled, around = Compilation.written compiled ∧
      Settled rules loaded grammar.scopeName root compiled rule := by
  have hTop : [grammar.repository] = Compilation.written [entries] := by
    rw [Compilation.written, List.map_singleton, hEmbodies.repository_eq]
  induction hOccurs with
  | pattern hMem =>
    rw [← hEmbodies.patterns_eq] at hMem
    obtain ⟨child, hChild, rfl⟩ := List.mem_map.1 hMem
    exact ⟨[entries], hTop, child.node, .inr (hEmbodies.patterns_stand child hChild)⟩
  | injection hMem =>
    have hRule : _ ∈ grammar.injections.map Prod.snd := List.mem_map_of_mem hMem
    rw [← hEmbodies.injections_eq] at hRule
    obtain ⟨target, hTarget, rfl⟩ := List.mem_map.1 hRule
    exact ⟨[entries], hTop, target.node, .inr (hEmbodies.injections_stand target hTarget)⟩
  | entry hMem =>
    rw [← hEmbodies.repository_eq] at hMem
    obtain ⟨entry, hEntry, hSame⟩ := List.mem_map.1 hMem
    cases hSame
    exact ⟨[entries], hTop, entry.2.node, .inl (hEmbodies.entries_compiled entry hEntry)⟩
  | innerPattern hOuter hOwn hMem ih =>
    obtain ⟨compiled, rfl, hSettled⟩ := ih
    obtain ⟨inner, hInner, hPatterns, -⟩ := hSettled.inner hOwn
    refine ⟨inner :: compiled, ?_, hPatterns _ hMem⟩
    rw [Compilation.written, Compilation.written, List.map_cons, hInner]
  | innerEntry hOuter hOwn hMem ih =>
    obtain ⟨compiled, rfl, hSettled⟩ := ih
    obtain ⟨inner, hInner, -, hEntries⟩ := hSettled.inner hOwn
    refine ⟨inner :: compiled, ?_, hEntries _ hMem⟩
    rw [Compilation.written, Compilation.written, List.map_cons, hInner]

/-- Every include that counts means something. -/
theorem exists_means
    (hEmbodies : Embodies rules loaded grammar root entries children targets waiting)
    {around : List (Table RuleSource)} {rule : RuleSource} {target : String}
    (hOccurs : grammar.Occurs around rule) (hInclude : rule.includes = some target) :
    ∃ meaning, Means loaded grammar.scopeName around target meaning := by
  obtain ⟨compiled, rfl, hSettled⟩ := hEmbodies.of_occurs hOccurs
  obtain ⟨meaning, hMeans⟩ := hSettled.exists_means hInclude
  exact ⟨_, hMeans.mapValues Compiled.source⟩

end Embodies

namespace Builder

open Compilation

variable {loaded : List Loaded} {builder after : Builder} {grammar : GrammarSource}

/-- At the top of a grammar only its own repository is around. -/
theorem Agrees.sees (hAgrees : builder.Agrees loaded) (grammar : GrammarSource) :
    (builder.scoping grammar).Sees loaded
      [compiledEntries (builder.rules.size + 1) grammar.repository] where
  toInTables := hAgrees.toInTables
  surrounding_eq := by
    rw [List.map_singleton, compiledEntries_node]
    rfl

/-- A grammar that was compiled is among all rules that keep what was compiled behind its root and
have that root, with whatever was injected. -/
theorem Agrees.exists_embodies_of_run (hAgrees : builder.Agrees loaded) {rule : Rule}
    {compiled : Builder}
    (hRun : (compileRoot (builder.scoping grammar) grammar).run.run builder = (.ok rule, compiled))
    {rules : Array Rule} {waiting : List Injection}
    (hKept : Keeps rules compiled fun index =>
      builder.rules.size < index ∧ index < compiled.rules.size)
    (hRoot : rules[builder.rules.size]? = some (rule.addInjections waiting)) :
    ∃ entries children targets,
      Embodies rules loaded grammar ⟨builder.rules.size⟩ entries children targets waiting := by
  have hSees := hAgrees.sees grammar
  obtain ⟨withEntries, withChildren, nodes, injections, hEntries, hChildren, hInjections, hRule⟩ :=
    parts_of_compileRoot hRun
  obtain ⟨handles, _, hTargets, hAnswer⟩ := exists_of_run_bind hInjections
  cases hAnswer
  have hEntriesKept := (confined_compileEntries _ _ _).of_run hEntries
  have hChildrenKept := (confined_compileRules _ _).of_run hChildren
  have hTargetsKept := (confined_compileRules _ _).of_run hTargets
  have hFirstSize := hEntriesKept.size_le
  have hNextSize := hChildrenKept.size_le
  have hLastSize := hTargetsKept.size_le
  rw [size_reserved, size_reserved] at hFirstSize
  have hKeptChildren : Keeps rules withChildren fun index =>
      builder.rules.size < index ∧ index < withChildren.rules.size :=
    hKept.before hTargetsKept fun index h => ⟨by omega, h.2, id⟩
  have hKeptEntries : Keeps rules withEntries fun index =>
      builder.rules.size < index ∧ index < withEntries.rules.size :=
    hKeptChildren.before hChildrenKept fun index h => ⟨by omega, h.2, id⟩
  have hEntriesAt := (compiledTo_of_run rules loaded).2.2 _ _ _ hSees
    (by rw [size_reserved, size_reserved]) hEntries
    (fun index h => hKeptEntries index (by rw [size_reserved, size_reserved] at h; omega))
  obtain ⟨children, hPatterns, rfl, hStand⟩ := (compiledTo_of_run rules loaded).2.1 _ _ hSees
    hChildren fun index h => hKeptChildren index (by omega)
  obtain ⟨targets, hSources, rfl, hInjected⟩ := (compiledTo_of_run rules loaded).2.1 _ _ hSees
    hTargets fun index h => hKept index (by omega)
  refine ⟨_, children, targets, compiledEntries_source _ _, compiledEntries_node _ _,
    hEntriesAt, hPatterns, hStand, hSources, hInjected, ?_⟩
  rw [hRoot, hRule, Rule.addInjections, List.zipWith_map_right]

/-- A grammar that goes through is among the rules as it is written. -/
theorem Agrees.exists_embodies (hAgrees : builder.Agrees loaded) {root : NodeId}
    (hAdd : builder.addGrammar grammar = (.ok root, after)) :
    ∃ entries children targets waiting,
      Embodies after.rules loaded grammar root entries children targets waiting := by
  obtain ⟨hRoot, rule, compiled, hRun, -⟩ := exists_of_addGrammar_ok hAdd
  have hWaiting := root_of_addGrammar_ok hRun hAdd
  subst hRoot
  obtain ⟨entries, children, targets, hEmbodies⟩ := hAgrees.exists_embodies_of_run hRun
    (fun index h => hAgrees.rules_of_addGrammar_ok hRun hAdd h.1) hWaiting
  exact ⟨entries, children, targets, _, hEmbodies⟩

/-- A grammar that fails has an include that means nothing. -/
theorem Agrees.lacks (hAgrees : builder.Agrees loaded) {failure : Failure}
    (hAdd : builder.addGrammar grammar = (.error failure, after)) :
    grammar.Lacks loaded failure := by
  obtain ⟨-, compiled, hRun⟩ := eq_of_addGrammar_error hAdd
  have hSees := hAgrees.sees grammar
  have hTop : written [compiledEntries (builder.rules.size + 1) grammar.repository] =
      [grammar.repository] := by
    rw [written, List.map_singleton, compiledEntries_source]
  obtain ⟨-, hRules, hEntries⟩ := lacks_of_run grammar loaded
  rw [compileRoot, run_reserve_bind, run_reserve_bind, size_reserved] at hRun
  rcases failed_of_run_bind hRun with hStops | ⟨_, _, _, hRun⟩
  · refine hEntries _ _ _ hSees rfl (fun entry hMem => ?_) hStops
    rw [hTop]
    exact .entry hMem
  rcases failed_of_run_bind hRun with hStops | ⟨_, _, _, hRun⟩
  · refine hRules _ _ hSees rfl (fun rule hMem => ?_) hStops
    rw [hTop]
    exact .pattern hMem
  rcases failed_of_run_bind hRun with hStops | ⟨_, _, _, hAnswer⟩
  · rcases failed_of_run_bind hStops with hStops | ⟨_, _, _, hAnswer⟩
    · refine hRules _ _ hSees rfl (fun rule hMem => ?_) hStops
      obtain ⟨entry, hEntry, rfl⟩ := List.mem_map.1 hMem
      rw [hTop]
      exact .injection hEntry
    · cases hAnswer
  · cases hAnswer

/-- A grammar is added exactly if every include that counts means something.  If one does not, the
failure names such an include.  If it goes through, its rules are as they are written, with every
include standing for what it means. -/
theorem includes_follow_lexical_scope (hBuilt : Built loaded builder) (grammar : GrammarSource) :
    ((∃ root after, builder.addGrammar grammar = (.ok root, after)) ↔
      ∀ around rule target, grammar.Occurs around rule → rule.includes = some target →
        ∃ meaning, Means loaded grammar.scopeName around target meaning) ∧
    (∀ failure after, builder.addGrammar grammar = (.error failure, after) →
      ∃ around rule target, grammar.Occurs around rule ∧ rule.includes = some target ∧
        (∀ meaning, ¬ Means loaded grammar.scopeName around target meaning) ∧
        failure = .unresolvedInclude target) ∧
    (∀ root after, builder.addGrammar grammar = (.ok root, after) →
      ∃ entries children targets waiting,
        Embodies after.rules loaded grammar root entries children targets waiting) := by
  have hAgrees : builder.Agrees loaded := hBuilt.agrees
  refine ⟨⟨?_, ?_⟩, fun failure after hAdd => hAgrees.lacks hAdd,
    fun root after hAdd => hAgrees.exists_embodies hAdd⟩
  · rintro ⟨root, after, hAdd⟩ around rule target hOccurs hInclude
    obtain ⟨_, _, _, _, hEmbodies⟩ := hAgrees.exists_embodies hAdd
    exact hEmbodies.exists_means hOccurs hInclude
  · intro hMeans
    rcases hAdd : builder.addGrammar grammar with ⟨failure | root, after⟩
    · obtain ⟨around, rule, target, hOccurs, hInclude, hNothing, -⟩ := hAgrees.lacks hAdd
      obtain ⟨meaning, hMeaning⟩ := hMeans around rule target hOccurs hInclude
      exact absurd hMeaning (hNothing meaning)
    · exact ⟨root, after, rfl⟩

/-- A grammar with one name for an entry of its own and one of a rule in it, which includes both,
and an entry that includes itself. -/
def nestedGrammar : GrammarSource where
  scopeName := "nested"
  patterns :=
    [{ patterns := [{ includes := some "#letter" }, { includes := some "nested#letter" }]
       repository := [("letter", { matchPattern := some "c" })] },
      { includes := some "host" }]
  repository := [("letter", { matchPattern := some "d" }), ("loop", { includes := some "#loop" })]

/-- A grammar that includes an entry of a rule beside the include. -/
def strayGrammar : GrammarSource where
  scopeName := "stray"
  patterns :=
    [{ repository := [("letter", { matchPattern := some "c" })] }, { includes := some "#letter" }]

/-- Among two grammars of one scope name, a grammar whose includes all mean something, and one that
reaches for an entry it cannot see. -/
theorem nested_goes_through_and_stray_fails :
    hostBuilder.Built [⟨letterGrammar "host" "b", ⟨2⟩⟩, ⟨letterGrammar "host" "a", ⟨0⟩⟩] ∧
    (hostBuilder.addGrammar nestedGrammar).1 = .ok ⟨4⟩ ∧
    (∃ meaning, Means [⟨letterGrammar "host" "b", ⟨2⟩⟩, ⟨letterGrammar "host" "a", ⟨0⟩⟩] "nested"
      [nestedGrammar.repository] "#loop" meaning) ∧
    (hostBuilder.addGrammar strayGrammar).1 = .error (.unresolvedInclude "#letter") ∧
    (∃ around rule target, strayGrammar.Occurs around rule ∧ rule.includes = some target ∧
      ∀ meaning, ¬ Means [⟨letterGrammar "host" "b", ⟨2⟩⟩, ⟨letterGrammar "host" "a", ⟨0⟩⟩] "stray"
        around target meaning) := by
  have hRoot : (hostBuilder.addGrammar nestedGrammar).1 = .ok ⟨4⟩ := rfl
  have hFailure : (hostBuilder.addGrammar strayGrammar).1 =
      .error (.unresolvedInclude "#letter") := rfl
  obtain ⟨hAdded, -, -⟩ := includes_follow_lexical_scope hostBuilder_built nestedGrammar
  obtain ⟨-, hStray, -⟩ := includes_follow_lexical_scope hostBuilder_built strayGrammar
  have hAll := hAdded.1 ⟨⟨4⟩, _, Prod.ext hRoot rfl⟩
  obtain ⟨around, rule, target, hOccurs, hInclude, hNothing, -⟩ :=
    hStray _ _ (Prod.ext hFailure rfl)
  have hLoop : ("loop", { includes := some "#loop" }) ∈ nestedGrammar.repository :=
    List.mem_cons_of_mem _ List.mem_cons_self
  exact ⟨hostBuilder_built, hRoot, hAll _ _ _ (.entry hLoop) rfl, hFailure, around, rule, target,
    hOccurs, hInclude, hNothing⟩

/-- The name alone is the inner entry, with the scope it is that of the grammar. -/
example : (hostBuilder.addGrammar nestedGrammar).2.rules[7]? =
    some { children := [⟨8⟩, ⟨5⟩] } := by
  decide +kernel

end Builder

end GrammarSearch
