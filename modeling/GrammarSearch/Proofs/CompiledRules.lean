import GrammarSearch.Proofs.IncludeMeaning

/-!
# Compiled rules

The rules of a grammar stand inside each other, and each of them sees the repositories of the rules
around it.  `GrammarSource.Occurs` lists the rules that count, with the repositories they see:
nothing counts that stands in a rule with an include.

`CompiledTo` says that a rule as written is what stands at a handle, and `StandsFor` that a handle
is what another rule lists as its child.  Both follow the rule as it is written, with `Means` for
its includes, and do not mention how compiling goes about it.  Compiling that goes through gives
such rules (`compiledTo_of_run`), by induction over the rules: what a part of a grammar has written
is not touched again by the parts after it.  Compiling that fails has met an include that means
nothing (`lacks_of_run`).
-/

namespace GrammarSearch

/-- A rule as written, with the handle that it is compiled to. -/
structure Compiled where
  source : RuleSource
  node : NodeId

/-- The rules of a grammar that count, and the repositories that they see, innermost first. -/
inductive GrammarSource.Occurs (grammar : GrammarSource) :
    List (Table RuleSource) → RuleSource → Prop
  | pattern {rule : RuleSource} (hMem : rule ∈ grammar.patterns) :
      grammar.Occurs [grammar.repository] rule
  | injection {selector : String} {rule : RuleSource}
      (hMem : (selector, rule) ∈ grammar.injections) : grammar.Occurs [grammar.repository] rule
  | entry {name : String} {rule : RuleSource} (hMem : (name, rule) ∈ grammar.repository) :
      grammar.Occurs [grammar.repository] rule
  | innerPattern {around : List (Table RuleSource)} {outer rule : RuleSource}
      (hOuter : grammar.Occurs around outer) (hOwn : outer.includes = none)
      (hMem : rule ∈ outer.patterns) : grammar.Occurs (outer.repository :: around) rule
  | innerEntry {around : List (Table RuleSource)} {outer rule : RuleSource} {name : String}
      (hOuter : grammar.Occurs around outer) (hOwn : outer.includes = none)
      (hMem : (name, rule) ∈ outer.repository) : grammar.Occurs (outer.repository :: around) rule

section

variable (rules : Array Rule) (loaded : List Loaded) (scopeName : String) (root : NodeId)

mutual

/-- A rule as written stands at a handle: a group of what its include means, or a rule of its own
over its patterns, which see its repository. -/
inductive CompiledTo : List (Table Compiled) → RuleSource → NodeId → Prop
  | included {around : List (Table Compiled)} {source : RuleSource} {target : String}
      {meaning : Meaning Compiled} {node : NodeId} (hInclude : source.includes = some target)
      (hMeans : Means loaded scopeName around target meaning)
      (hRule : rules[node.index]? =
        some { children := [(meaning.map Compiled.node).handle root] }) :
      CompiledTo around source node
  | own {around : List (Table Compiled)} {source : RuleSource} {entries : Table Compiled}
      {children : List Compiled} {node : NodeId} (hOwn : source.includes = none)
      (hRepository : entries.mapValues Compiled.source = source.repository)
      (hEntries : ∀ entry ∈ entries, CompiledTo (entries :: around) entry.2.source entry.2.node)
      (hPatterns : children.map Compiled.source = source.patterns)
      (hChildren : ∀ child ∈ children, StandsFor (entries :: around) child.source child.node)
      (hRule : rules[node.index]? =
        some (Compilation.ruleOf source (children.map Compiled.node))) :
      CompiledTo around source node

/-- A handle stands for a rule as written: it is what its include means, or where the rule is. -/
inductive StandsFor : List (Table Compiled) → RuleSource → NodeId → Prop
  | included {around : List (Table Compiled)} {source : RuleSource} {target : String}
      {meaning : Meaning Compiled} (hInclude : source.includes = some target)
      (hMeans : Means loaded scopeName around target meaning) :
      StandsFor around source ((meaning.map Compiled.node).handle root)
  | own {around : List (Table Compiled)} {source : RuleSource} {node : NodeId}
      (hOwn : source.includes = none) (hCompiled : CompiledTo around source node) :
      StandsFor around source node

end

end

/-- An array of rules has what a builder has in some places. -/
def Keeps (rules : Array Rule) (builder : Builder) (places : Nat → Prop) : Prop :=
  ∀ index, places index → rules[index]? = builder.rules[index]?

/-- What a part has left is still there after a later part that touched none of it. -/
theorem Keeps.before {rules : Array Rule} {between after : Builder}
    {places earlier touched : Nat → Prop} (hKeeps : Keeps rules after places)
    (hExtends : between.Extends touched after)
    (hEarlier : ∀ index, earlier index →
      places index ∧ index < between.rules.size ∧ ¬ touched index) :
    Keeps rules between earlier := by
  intro index hIndex
  obtain ⟨hPlace, hSize, hUntouched⟩ := hEarlier index hIndex
  rw [hKeeps index hPlace]
  exact hExtends.kept index hSize hUntouched

/-- The entries of a repository with the handles that are taken for them. -/
def compiledEntries (first : Nat) : Table RuleSource → Table Compiled
  | [] => []
  | (name, source) :: entries => (name, ⟨source, ⟨first⟩⟩) :: compiledEntries (first + 1) entries

theorem compiledEntries_source (first : Nat) (entries : Table RuleSource) :
    (compiledEntries first entries).mapValues Compiled.source = entries := by
  induction entries generalizing first with
  | nil => rfl
  | cons entry entries ih => exact congrArg ((entry.1, entry.2) :: ·) (ih (first + 1))

theorem compiledEntries_node (first : Nat) (entries : Table RuleSource) :
    (compiledEntries first entries).mapValues Compiled.node =
      Compilation.entryHandles first entries := by
  induction entries generalizing first with
  | nil => rfl
  | cons entry entries ih => exact congrArg ((entry.1, ⟨first⟩) :: ·) (ih (first + 1))

/-- A scoping has the tables of the loaded grammars and the handles of the repositories around. -/
structure Scoping.Sees (scoping : Scoping) (loaded : List Loaded) (around : List (Table Compiled)) :
    Prop extends Loaded.InTables loaded scoping.roots scoping.repositories where
  surrounding_eq : scoping.surrounding = around.map (Table.mapValues Compiled.node)

namespace Scoping.Sees

variable {scoping : Scoping} {loaded : List Loaded} {around : List (Table Compiled)}

theorem within (hSees : scoping.Sees loaded around) (first : Nat) (repository : Table RuleSource) :
    (scoping.within (Compilation.entryHandles first repository)).Sees loaded
      (compiledEntries first repository :: around) where
  toInTables := hSees.toInTables
  surrounding_eq := by
    rw [List.map_cons, compiledEntries_node, ← hSees.surrounding_eq]
    rfl

/-- The look-up finds the handles of what is meant. -/
theorem resolve?_eq_some_iff (hSees : scoping.Sees loaded around) {target : String}
    {node : NodeId} :
    scoping.resolve? target = some node ↔
      ∃ meaning, Means loaded scoping.scopeName around target meaning ∧
        (meaning.map Compiled.node).handle scoping.root = node := by
  rw [Scoping.resolve?_eq_some_iff hSees.toInTables, hSees.surrounding_eq]
  constructor
  · rintro ⟨meaning, hMeans, hNode⟩
    obtain ⟨before, hBefore, rfl⟩ := (means_mapValues_iff Compiled.node).1 hMeans
    exact ⟨before, hBefore, hNode⟩
  · rintro ⟨before, hBefore, hNode⟩
    exact ⟨_, hBefore.mapValues Compiled.node, hNode⟩

end Scoping.Sees

namespace Compilation

variable {scoping : Scoping} {loaded : List Loaded} {around : List (Table Compiled)}
variable {before after : Builder} {target : String}

theorem compileInto_of_include {source : RuleSource} {node : NodeId}
    (hInclude : source.includes = some target) :
    compileInto scoping node source = (do
      let child ← ofExcept (scoping.resolve target)
      write node { children := [child] }) := by
  cases source
  cases hInclude
  rw [compileInto]

theorem compileInto_of_none {source : RuleSource} {node : NodeId} (hOwn : source.includes = none) :
    compileInto scoping node source = (do
      let first ← reserve source.repository.length
      compileEntries (scoping.within (entryHandles first source.repository)) first
        source.repository
      let children ← compileRules (scoping.within (entryHandles first source.repository))
        source.patterns
      write node (ruleOf source children)) := by
  cases source
  cases hOwn
  rw [compileInto]
  rfl

/-- An include that goes through means something. -/
theorem exists_means_of_run (hSees : scoping.Sees loaded around) {node : NodeId}
    (hRun : (ofExcept (scoping.resolve target) : Compilation NodeId).run.run before =
      (.ok node, after)) :
    after = before ∧ ∃ meaning, Means loaded scoping.scopeName around target meaning ∧
      (meaning.map Compiled.node).handle scoping.root = node := by
  obtain ⟨hSame, hFound⟩ := found_of_run hRun
  exact ⟨hSame, hSees.resolve?_eq_some_iff.1 hFound⟩

/-- An include that stops a compilation means nothing. -/
theorem not_means_of_run (hSees : scoping.Sees loaded around) {failure : Failure}
    (hRun : (ofExcept (scoping.resolve target) : Compilation NodeId).run.run before =
      (.error failure, after)) :
    failure = .unresolvedInclude target ∧
      ∀ meaning, ¬ Means loaded scoping.scopeName around target meaning := by
  rw [Scoping.resolve] at hRun
  cases hFound : scoping.resolve? target with
  | none =>
    rw [hFound] at hRun
    cases hRun
    refine ⟨rfl, fun meaning hMeans => ?_⟩
    have hSome := hSees.resolve?_eq_some_iff.2 ⟨meaning, hMeans, rfl⟩
    rw [hFound] at hSome
    contradiction
  | some found =>
    rw [hFound] at hRun
    cases hRun

/-- If a rule is compiled to a place taken for it, then it stands there among all rules that keep
what was written to new places and to this one. -/
def RulePlaced (rules : Array Rule) (loaded : List Loaded) (scoping : Scoping) (node : NodeId)
    (source : RuleSource) : Prop :=
  ∀ ⦃around before after⦄, scoping.Sees loaded around → node.index < before.rules.size →
    (compileInto scoping node source).run.run before = (.ok (), after) →
    Keeps rules after (fun index =>
      index = node.index ∨ before.rules.size ≤ index ∧ index < after.rules.size) →
    CompiledTo rules loaded scoping.scopeName scoping.root around source node

/-- If rules are compiled, then the handles given stand for them among all rules that keep what was
written to new places. -/
def RulesListed (rules : Array Rule) (loaded : List Loaded) (scoping : Scoping)
    (sources : List RuleSource) : Prop :=
  ∀ ⦃around before after nodes⦄, scoping.Sees loaded around →
    (compileRules scoping sources).run.run before = (.ok nodes, after) →
    Keeps rules after (fun index => before.rules.size ≤ index ∧ index < after.rules.size) →
    ∃ children : List Compiled, children.map Compiled.source = sources ∧
      children.map Compiled.node = nodes ∧ ∀ child ∈ children,
        StandsFor rules loaded scoping.scopeName scoping.root around child.source child.node

/-- If entries are compiled to the places taken for them, then they stand there among all rules that
keep what was written to new places and to these. -/
def EntriesPlaced (rules : Array Rule) (loaded : List Loaded) (scoping : Scoping) (next : Nat)
    (entries : Table RuleSource) : Prop :=
  ∀ ⦃around before after⦄, scoping.Sees loaded around →
    next + entries.length ≤ before.rules.size →
    (compileEntries scoping next entries).run.run before = (.ok (), after) →
    Keeps rules after (fun index => next ≤ index ∧ index < next + entries.length ∨
      before.rules.size ≤ index ∧ index < after.rules.size) →
    ∀ entry ∈ compiledEntries next entries, CompiledTo rules loaded scoping.scopeName scoping.root
      around entry.2.source entry.2.node

variable {rules : Array Rule} {node : NodeId} {source : RuleSource}

theorem rulePlaced_of_include (hInclude : source.includes = some target) :
    RulePlaced rules loaded scoping node source := by
  intro around before after hSees hNode hRun hKeeps
  rw [compileInto_of_include hInclude] at hRun
  obtain ⟨child, between, hChild, hWrite⟩ := exists_of_run_bind hRun
  obtain ⟨rfl, meaning, hMeans, rfl⟩ := exists_means_of_run hSees hChild
  cases hWrite
  refine .included hInclude hMeans ?_
  rw [hKeeps node.index (.inl rfl)]
  exact Array.getElem?_setIfInBounds_self_of_lt hNode

/-- A rule of its own is written after its entries and its patterns, to an older place than they. -/
theorem rulePlaced_of_parts (hOwn : source.includes = none)
    (hEntries : ∀ first, EntriesPlaced rules loaded
      (scoping.within (entryHandles first source.repository)) first source.repository)
    (hPatterns : ∀ first, RulesListed rules loaded
      (scoping.within (entryHandles first source.repository)) source.patterns) :
    RulePlaced rules loaded scoping node source := by
  intro around before after hSees hNode hRun hKeeps
  rw [compileInto_of_none hOwn, run_reserve_bind] at hRun
  obtain ⟨_, withEntries, hEntriesRun, hRun⟩ := exists_of_run_bind hRun
  obtain ⟨nodes, withChildren, hChildrenRun, hWrite⟩ := exists_of_run_bind hRun
  have hInside := hSees.within before.rules.size source.repository
  have hEntriesKept := (confined_compileEntries _ _ _).of_run hEntriesRun
  have hChildrenKept := (confined_compileRules _ _).of_run hChildrenRun
  have hWritten := (confined_write node _).of_run hWrite
  have hFirstSize := hEntriesKept.size_le
  have hNextSize := hChildrenKept.size_le
  have hLastSize := hWritten.size_le
  rw [Builder.size_reserved] at hFirstSize
  have hKept : Keeps rules withChildren fun index =>
      before.rules.size ≤ index ∧ index < withChildren.rules.size :=
    hKeeps.before hWritten fun index h => ⟨.inr (by omega), h.2, by omega⟩
  obtain ⟨children, hSources, rfl, hChildren⟩ := hPatterns before.rules.size hInside hChildrenRun
    fun index h => hKept index (by omega)
  have hEntriesAt := hEntries before.rules.size hInside (by rw [Builder.size_reserved])
    hEntriesRun (hKept.before hChildrenKept fun index h => by
      rw [Builder.size_reserved] at h
      exact ⟨by omega, by omega, id⟩)
  refine .own hOwn (compiledEntries_source _ _) hEntriesAt hSources hChildren ?_
  rw [hKeeps node.index (.inl rfl)]
  cases hWrite
  exact Array.getElem?_setIfInBounds_self_of_lt (by omega)

theorem rulesListed_cons_of_include {sources : List RuleSource}
    (hInclude : source.includes = some target)
    (hSources : RulesListed rules loaded scoping sources) :
    RulesListed rules loaded scoping (source :: sources) := by
  intro around before after nodes hSees hRun hKeeps
  rw [compileRules, hInclude] at hRun
  obtain ⟨node, between, hNode, hRun⟩ := exists_of_run_bind hRun
  obtain ⟨rfl, meaning, hMeans, rfl⟩ := exists_means_of_run hSees hNode
  obtain ⟨rest, _, hRest, hAnswer⟩ := exists_of_run_bind hRun
  cases hAnswer
  obtain ⟨children, rfl, rfl, hChildren⟩ := hSources hSees hRest hKeeps
  refine ⟨⟨source, _⟩ :: children, rfl, rfl, fun child hMem => ?_⟩
  rcases List.mem_cons.1 hMem with rfl | hMem
  · exact .included hInclude hMeans
  · exact hChildren child hMem

theorem rulesListed_cons_of_none {sources : List RuleSource} (hOwn : source.includes = none)
    (hSource : ∀ index, RulePlaced rules loaded scoping ⟨index⟩ source)
    (hSources : RulesListed rules loaded scoping sources) :
    RulesListed rules loaded scoping (source :: sources) := by
  intro around before after nodes hSees hRun hKeeps
  rw [compileRules, hOwn] at hRun
  simp only [run_reserve_bind, pure_bind] at hRun
  obtain ⟨_, between, hInto, hRun⟩ := exists_of_run_bind hRun
  obtain ⟨rest, _, hRest, hAnswer⟩ := exists_of_run_bind hRun
  cases hAnswer
  have hIntoKept := (confined_compileInto _ _ _).of_run hInto
  have hRestKept := (confined_compileRules _ _).of_run hRest
  have hFirstSize := hIntoKept.size_le
  have hNextSize := hRestKept.size_le
  rw [Builder.size_reserved] at hFirstSize
  have hFirst : CompiledTo rules loaded scoping.scopeName scoping.root around source
      ⟨before.rules.size⟩ := by
    refine hSource before.rules.size hSees ?_ hInto (hKeeps.before hRestKept fun index h => ?_)
    · show before.rules.size < (before.reserved 1).rules.size
      rw [Builder.size_reserved]
      omega
    · rw [Builder.size_reserved] at h
      have hPlace : index = before.rules.size ∨
        before.rules.size + 1 ≤ index ∧ index < between.rules.size := h
      exact ⟨by omega, by omega, id⟩
  obtain ⟨children, rfl, rfl, hChildren⟩ := hSources hSees hRest
    fun index h => hKeeps index (by omega)
  refine ⟨⟨source, ⟨before.rules.size⟩⟩ :: children, rfl, rfl, fun child hMem => ?_⟩
  rcases List.mem_cons.1 hMem with rfl | hMem
  · exact .own hOwn hFirst
  · exact hChildren child hMem

theorem entriesPlaced_cons {next : Nat} {name : String} {entries : Table RuleSource}
    (hSource : RulePlaced rules loaded scoping ⟨next⟩ source)
    (hEntries : EntriesPlaced rules loaded scoping (next + 1) entries) :
    EntriesPlaced rules loaded scoping next ((name, source) :: entries) := by
  intro around before after hSees hSize hRun hKeeps
  rw [compileEntries] at hRun
  obtain ⟨_, between, hInto, hRest⟩ := exists_of_run_bind hRun
  have hIntoKept := (confined_compileInto _ _ _).of_run hInto
  have hRestKept := (confined_compileEntries _ _ _).of_run hRest
  have hFirstSize := hIntoKept.size_le
  have hNextSize := hRestKept.size_le
  rw [List.length_cons] at hSize hKeeps
  intro other hMem
  rcases List.mem_cons.1 hMem with rfl | hMem
  · refine hSource hSees ?_ hInto (hKeeps.before hRestKept fun index h => ?_)
    · show next < before.rules.size
      omega
    · have hPlace : index = next ∨ before.rules.size ≤ index ∧ index < between.rules.size := h
      omega
  · exact hEntries hSees (by omega) hRest (fun index h => hKeeps index (by omega)) other hMem

/-- Compiling that goes through gives the rules that are written: by induction over a rule and the
rules in its lists. -/
theorem compiledTo_of_run (rules : Array Rule) (loaded : List Loaded) :
    (∀ scoping node source, RulePlaced rules loaded scoping node source) ∧
    (∀ scoping sources, RulesListed rules loaded scoping sources) ∧
    (∀ scoping next entries, EntriesPlaced rules loaded scoping next entries) := by
  refine compileInto.mutual_induct _ _ _ ?including ?own ?noRule ?included ?rule ?noEntry ?entry
  case including =>
    intro scoping node _ _ _ _ _ _ _ _ _ _ target
    exact rulePlaced_of_include rfl
  case own =>
    intro scoping node _ _ _ _ _ _ _ _ patterns repository hEntries hPatterns
    exact rulePlaced_of_parts rfl hEntries hPatterns
  case noRule =>
    intro scoping around before after nodes hSees hRun hKeeps
    rw [compileRules] at hRun
    cases hRun
    exact ⟨[], rfl, rfl, fun child hMem => absurd hMem List.not_mem_nil⟩
  case included =>
    intro scoping source sources target hInclude hSources
    exact rulesListed_cons_of_include hInclude hSources
  case rule =>
    intro scoping source sources hOwn hSources hSource
    exact rulesListed_cons_of_none hOwn hSource hSources
  case noEntry =>
    intro scoping next around before after hSees hSize hRun hKeeps entry hMem
    exact absurd hMem List.not_mem_nil
  case entry =>
    intro scoping next name source entries hSource hEntries
    exact entriesPlaced_cons hSource hEntries

end Compilation

/-- A failure names an include of the grammar that means nothing. -/
def GrammarSource.Lacks (grammar : GrammarSource) (loaded : List Loaded) (failure : Failure) :
    Prop :=
  ∃ around rule target, grammar.Occurs around rule ∧ rule.includes = some target ∧
    (∀ meaning, ¬ Means loaded grammar.scopeName around target meaning) ∧
    failure = .unresolvedInclude target

namespace Compilation

/-- The repositories around a place as they are written. -/
def written (around : List (Table Compiled)) : List (Table RuleSource) :=
  around.map (Table.mapValues Compiled.source)

/-- An include that means nothing means nothing in the grammar as it is written either. -/
theorem lacks_of_include {grammar : GrammarSource} {loaded : List Loaded} {scoping : Scoping}
    {around : List (Table Compiled)} {rule : RuleSource} {target : String} {failure : Failure}
    {before after : Builder} (hSees : scoping.Sees loaded around)
    (hScope : scoping.scopeName = grammar.scopeName)
    (hOccurs : grammar.Occurs (written around) rule) (hInclude : rule.includes = some target)
    (hRun : (ofExcept (scoping.resolve target) : Compilation NodeId).run.run before =
      (.error failure, after)) : grammar.Lacks loaded failure := by
  obtain ⟨rfl, hNothing⟩ := not_means_of_run hSees hRun
  refine ⟨written around, rule, target, hOccurs, hInclude, fun meaning hMeans => ?_, rfl⟩
  obtain ⟨before, hBefore, -⟩ := (means_mapValues_iff Compiled.source).1 hMeans
  rw [← hScope] at hBefore
  exact hNothing before hBefore

/-- Compiling fails only at an include that means nothing: by induction over a rule and the rules in
its lists. -/
theorem lacks_of_run (grammar : GrammarSource) (loaded : List Loaded) :
    (∀ scoping node source, ∀ {around before after failure}, scoping.Sees loaded around →
      scoping.scopeName = grammar.scopeName → grammar.Occurs (written around) source →
      (compileInto scoping node source).run.run before = (.error failure, after) →
      grammar.Lacks loaded failure) ∧
    (∀ scoping sources, ∀ {around before after failure}, scoping.Sees loaded around →
      scoping.scopeName = grammar.scopeName →
      (∀ source ∈ sources, grammar.Occurs (written around) source) →
      (compileRules scoping sources).run.run before = (.error failure, after) →
      grammar.Lacks loaded failure) ∧
    (∀ scoping next entries, ∀ {around before after failure}, scoping.Sees loaded around →
      scoping.scopeName = grammar.scopeName →
      (∀ entry ∈ entries, grammar.Occurs (written around) entry.2) →
      (compileEntries scoping next entries).run.run before = (.error failure, after) →
      grammar.Lacks loaded failure) := by
  refine compileInto.mutual_induct _ _ _ ?including ?own ?noRule ?included ?rule ?noEntry ?entry
  case including =>
    intro scoping node _ _ _ _ _ _ _ _ _ _ target around before after failure hSees hScope hOccurs
      hRun
    rw [compileInto] at hRun
    rcases failed_of_run_bind hRun with hStops | ⟨_, _, _, hWrite⟩
    · exact lacks_of_include hSees hScope hOccurs rfl hStops
    · cases hWrite
  case own =>
    intro scoping node _ _ _ _ _ _ _ _ patterns repository hEntries hPatterns around before after
      failure hSees hScope hOccurs hRun
    rw [compileInto, run_reserve_bind] at hRun
    have hInside := hSees.within before.rules.size repository
    have hWritten : written (compiledEntries before.rules.size repository :: around) =
        repository :: written around := by
      rw [written, List.map_cons, compiledEntries_source, written]
    rcases failed_of_run_bind hRun with hStops | ⟨_, _, _, hRun⟩
    · refine hEntries before.rules.size hInside hScope (fun entry hMem => ?_) hStops
      rw [hWritten]
      exact .innerEntry hOccurs rfl hMem
    rcases failed_of_run_bind hRun with hStops | ⟨_, _, _, hWrite⟩
    · refine hPatterns before.rules.size hInside hScope (fun rule hMem => ?_) hStops
      rw [hWritten]
      exact .innerPattern hOccurs rfl hMem
    · cases hWrite
  case noRule =>
    intro scoping around before after failure hSees hScope hOccurs hRun
    rw [compileRules] at hRun
    cases hRun
  case included =>
    intro scoping source sources target hInclude hSources around before after failure hSees hScope
      hOccurs hRun
    rw [compileRules, hInclude] at hRun
    rcases failed_of_run_bind hRun with hStops | ⟨_, _, _, hRun⟩
    · exact lacks_of_include hSees hScope (hOccurs source List.mem_cons_self) hInclude hStops
    rcases failed_of_run_bind hRun with hStops | ⟨_, _, _, hAnswer⟩
    · exact hSources hSees hScope (List.forall_mem_cons.1 hOccurs).2 hStops
    · cases hAnswer
  case rule =>
    intro scoping source sources hNone hSources hSource around before after failure hSees hScope
      hOccurs hRun
    rw [compileRules, hNone] at hRun
    simp only [run_reserve_bind, pure_bind] at hRun
    rcases failed_of_run_bind hRun with hStops | ⟨_, _, _, hRun⟩
    · exact hSource before.rules.size hSees hScope (hOccurs source List.mem_cons_self) hStops
    rcases failed_of_run_bind hRun with hStops | ⟨_, _, _, hAnswer⟩
    · exact hSources hSees hScope (List.forall_mem_cons.1 hOccurs).2 hStops
    · cases hAnswer
  case noEntry =>
    intro scoping next around before after failure hSees hScope hOccurs hRun
    rw [compileEntries] at hRun
    cases hRun
  case entry =>
    intro scoping next name source entries hSource hEntries around before after failure hSees hScope
      hOccurs hRun
    rw [compileEntries] at hRun
    rcases failed_of_run_bind hRun with hStops | ⟨_, _, _, hRest⟩
    · exact hSource hSees hScope (hOccurs _ List.mem_cons_self) hStops
    · exact hEntries hSees hScope (List.forall_mem_cons.1 hOccurs).2 hRest

end Compilation

end GrammarSearch
