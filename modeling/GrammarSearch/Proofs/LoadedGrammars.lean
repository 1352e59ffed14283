import GrammarSearch.Proofs.CompilationFrame

/-!
# Loaded grammars

A builder that a host has worked with has a list of the grammars that were added to it.
`Builder.Built` holds of every builder that calls lead to, also where calls failed on the way, and
gives that list, the last grammar first.  A scope name means the first grammar of the list that has
it (`Loaded.current?`), and that is what the tables of the builder say (`Builder.Built.agrees`).

Adding a grammar changes nothing if it fails.  If it goes through, the rules that were there keep
their handles and all their fields, and some of them gain injections: one for every mention of a
scope name whose grammar has that rule as its root.
-/

namespace GrammarSearch

/-- A grammar that was added, and its root. -/
structure Loaded where
  source : GrammarSource
  root : NodeId

namespace Loaded

/-- The handles of the entries of the grammar's repository, which come after its root. -/
def repository (grammar : Loaded) : Repository :=
  Compilation.entryHandles (grammar.root.index + 1) grammar.source.repository

/-- The grammar that a scope name means: the last one added under that name. -/
def current? (loaded : List Loaded) (scope : String) : Option Loaded :=
  loaded.find? fun grammar => grammar.source.scopeName = scope

theorem current?_cons (grammar : Loaded) (loaded : List Loaded) (scope : String) :
    current? (grammar :: loaded) scope =
      if scope = grammar.source.scopeName then some grammar else current? loaded scope := by
  by_cases hScope : scope = grammar.source.scopeName
  · simp [current?, hScope]
  · simp [current?, hScope, Ne.symm hScope]

/-- Tables of roots and of repositories say what scope names mean. -/
structure InTables (loaded : List Loaded) (roots : Table NodeId) (repositories : Table Repository) :
    Prop where
  roots_eq : ∀ scope, roots.lookup scope = (current? loaded scope).map Loaded.root
  repositories_eq : ∀ scope, repositories.lookup scope =
    (current? loaded scope).map Loaded.repository

end Loaded

/-- A rule with some more injections. -/
def Rule.addInjections (rule : Rule) (injections : List Injection) : Rule :=
  { rule with injections := rule.injections ++ injections }

theorem Rule.addInjections_nil (rule : Rule) : rule.addInjections [] = rule := by
  simp [addInjections]

theorem Rule.addInjections_append (rule : Rule) (first second : List Injection) :
    rule.addInjections (first ++ second) =
      (rule.addInjections first).addInjections second := by
  simp [addInjections]

/-- The injections that a grammar with the given root asks for in the scopes that are chosen: one
for every mention. -/
def GrammarSource.injected (source : GrammarSource) (root : NodeId) (chosen : String → Bool) :
    List Injection :=
  match source.injectionSelector with
  | some selector => .replicate (source.injectTo.countP chosen) ⟨selector, root⟩
  | none => []

/-- The injections of a grammar with the given root that wait for scopes which are not among some
roots, once for every mention. -/
def GrammarSource.deferred (source : GrammarSource) (root : NodeId) (roots : Table NodeId) :
    Table Injection :=
  match source.injectionSelector with
  | some selector => (source.injectTo.filter fun target => roots.lookup target = none).map
      fun target => (target, ⟨selector, root⟩)
  | none => []

namespace GrammarSource

theorem injected_congr {source : GrammarSource} {root : NodeId} {chosen other : String → Bool}
    (hSame : ∀ target ∈ source.injectTo, chosen target = other target) :
    source.injected root chosen = source.injected root other := by
  have hCount : source.injectTo.countP chosen = source.injectTo.countP other :=
    List.countP_congr fun target hMem => by rw [hSame target hMem]
  simp only [injected, hCount]

/-- Nothing is injected where no scope is chosen. -/
theorem injected_eq_nil {source : GrammarSource} {root : NodeId} {chosen : String → Bool}
    (hNone : ∀ target ∈ source.injectTo, chosen target = false) :
    source.injected root chosen = [] := by
  rw [injected_congr hNone, injected]
  split
  · simp
  · rfl

/-- What waits for a scope. -/
theorem deferred_to (source : GrammarSource) (root : NodeId) (roots : Table NodeId)
    (scope : String) :
    ((source.deferred root roots).filter fun entry => entry.1 == scope).map Prod.snd =
      if roots.lookup scope = none then source.injected root fun target => target = scope
      else [] := by
  cases hSelector : source.injectionSelector with
  | none => simp [deferred, injected, hSelector]
  | some selector =>
    simp only [deferred, injected, hSelector]
    induction source.injectTo with
    | nil => simp
    | cons target targets ih =>
      rw [List.filter_cons, List.countP_cons]
      by_cases hTarget : target = scope
      · subst hTarget
        by_cases hRoot : roots.lookup target = none
        · simpa [hRoot, List.replicate_succ] using ih
        · simpa [hRoot] using ih
      · by_cases hRoot : roots.lookup target = none
        · simpa [hRoot, hTarget] using ih
        · simpa [hRoot, hTarget] using ih

end GrammarSource

namespace Builder

/-- The builders that calls of a host lead to, with the grammars added on the way, the last one
first. A call that fails leaves whatever it leaves. -/
inductive Built : List Loaded → Builder → Prop
  | empty : Built [] {}
  | addRule {loaded : List Loaded} {builder : Builder} (before : Built loaded builder)
      (rule : Rule) : Built loaded (builder.addRule rule).2
  | modifyRule {loaded : List Loaded} {builder changed : Builder} (before : Built loaded builder)
      {node : NodeId} {change : Rule → Rule}
      (hChange : builder.modifyRule node change = .ok changed) : Built loaded changed
  | added {loaded : List Loaded} {builder after : Builder} (before : Built loaded builder)
      {form : GrammarForm} {source : GrammarSource} {root : NodeId}
      (hRead : form.read = .ok source) (hAdd : builder.add form = (.ok root, after)) :
      Built (⟨source, root⟩ :: loaded) after
  | refused {loaded : List Loaded} {builder after : Builder} (before : Built loaded builder)
      {form : GrammarForm} {failure : Failure}
      (hAdd : builder.add form = (.error failure, after)) : Built loaded after

variable {builder after compiled : Builder} {source : GrammarSource} {scoping : Scoping}
variable {rule : Rule} {root : NodeId} {failure : Failure}

/-! ## Injections -/

/-- Injecting changes rules, and how many injections wait, but nothing else. -/
theorem inject_frame (injection : Injection) (builder : Builder) (target : String) :
    (inject injection builder target).roots = builder.roots ∧
      (inject injection builder target).repositories = builder.repositories ∧
      (inject injection builder target).rules.size = builder.rules.size := by
  simp only [inject]
  split
  · exact ⟨rfl, rfl, Array.size_modify⟩
  · exact ⟨rfl, rfl, rfl⟩

theorem rules_inject (injection : Injection) (builder : Builder) (target : String) (index : Nat) :
    (inject injection builder target).rules[index]? = builder.rules[index]?.map fun rule =>
      rule.addInjections
        (if builder.roots.lookup target = some ⟨index⟩ then [injection] else []) := by
  cases hRoot : builder.roots.lookup target with
  | none =>
    simp [inject, hRoot, Rule.addInjections_nil]
  | some root =>
    by_cases hIndex : root.index = index
    · subst hIndex
      simp [inject, hRoot, Array.getElem?_modify, Rule.addInjections, Rule.addInjection]
    · have hOther : root ≠ ⟨index⟩ := fun h => hIndex (congrArg NodeId.index h)
      simp [inject, hRoot, Array.getElem?_modify, hIndex, hOther, Rule.addInjections_nil]

/-- Injecting into several scopes gives every rule an injection for each mention of a scope whose
root it is. -/
theorem rules_foldl_inject (injection : Injection) (targets : List String) (builder : Builder)
    (index : Nat) :
    (targets.foldl (inject injection) builder).rules[index]? = builder.rules[index]?.map fun rule =>
      rule.addInjections (.replicate
        (targets.countP fun target => builder.roots.lookup target = some ⟨index⟩) injection) := by
  induction targets generalizing builder with
  | nil => simp [Rule.addInjections_nil]
  | cons target targets ih =>
    rw [List.foldl_cons, ih, rules_inject, Option.map_map, (inject_frame _ _ _).1]
    congr 1
    funext rule
    rw [Function.comp_apply, ← Rule.addInjections_append, List.countP_cons]
    by_cases hRoot : builder.roots.lookup target = some ⟨index⟩
    · simp [hRoot, List.replicate_succ]
    · simp [hRoot]

theorem rules_injectInto (builder : Builder) (source : GrammarSource) (root : NodeId)
    (index : Nat) :
    (builder.injectInto source root).rules[index]? = builder.rules[index]?.map fun rule =>
      rule.addInjections (source.injected root
        fun target => builder.roots.lookup target = some ⟨index⟩) := by
  cases hSelector : source.injectionSelector with
  | none => simp [injectInto, GrammarSource.injected, hSelector, Rule.addInjections_nil]
  | some selector =>
    simp only [injectInto, GrammarSource.injected, hSelector]
    exact rules_foldl_inject ⟨selector, root⟩ source.injectTo builder index

theorem injectInto_frame (builder : Builder) (source : GrammarSource) (root : NodeId) :
    (builder.injectInto source root).roots = builder.roots ∧
      (builder.injectInto source root).repositories = builder.repositories ∧
      (builder.injectInto source root).rules.size = builder.rules.size := by
  cases hSelector : source.injectionSelector with
  | none => simp only [injectInto, hSelector, and_self]
  | some selector =>
    simp only [injectInto, hSelector]
    induction source.injectTo generalizing builder with
    | nil => exact ⟨rfl, rfl, rfl⟩
    | cons target targets ih =>
      obtain ⟨hRoots, hRepositories, hSize⟩ := inject_frame ⟨selector, root⟩ builder target
      rw [List.foldl_cons, ← hRoots, ← hRepositories, ← hSize]
      exact ih _

/-- The injections that wait for a scope name. -/
def waiting (builder : Builder) (scope : String) : List Injection :=
  (builder.pending.filter fun entry => entry.1 == scope).map (·.2)

theorem mem_waiting_iff {scope : String} {injection : Injection} :
    injection ∈ builder.waiting scope ↔ (scope, injection) ∈ builder.pending := by
  simp [waiting]

/-- An injection waits if the grammar of its scope is not there yet. -/
theorem pending_inject (injection : Injection) (builder : Builder) (target : String) :
    (inject injection builder target).pending = builder.pending ++
      if builder.roots.lookup target = none then [(target, injection)] else [] := by
  cases hRoot : builder.roots.lookup target with
  | none => simp [inject, hRoot]
  | some root => simp [inject, hRoot]

theorem pending_foldl_inject (injection : Injection) (targets : List String) (builder : Builder) :
    (targets.foldl (inject injection) builder).pending = builder.pending ++
      (targets.filter fun target => builder.roots.lookup target = none).map
        fun target => (target, injection) := by
  induction targets generalizing builder with
  | nil => simp
  | cons target targets ih =>
    rw [List.foldl_cons, ih, pending_inject, (inject_frame _ _ _).1, List.append_assoc,
      List.filter_cons]
    by_cases hRoot : builder.roots.lookup target = none
    · simp [hRoot]
    · simp [hRoot]

/-- A grammar waits for the scopes that it mentions and that are not there yet, once for every
mention. -/
theorem pending_injectInto (builder : Builder) (source : GrammarSource) (root : NodeId) :
    (builder.injectInto source root).pending =
      builder.pending ++ source.deferred root builder.roots := by
  cases hSelector : source.injectionSelector with
  | none => simp [injectInto, GrammarSource.deferred, hSelector]
  | some selector =>
    simp only [injectInto, GrammarSource.deferred, hSelector]
    exact pending_foldl_inject ⟨selector, root⟩ source.injectTo builder

theorem waiting_injectInto (builder : Builder) (source : GrammarSource) (root : NodeId)
    (scope : String) :
    (builder.injectInto source root).waiting scope = builder.waiting scope ++
      if builder.roots.lookup scope = none then
        source.injected root fun target => target = scope
      else [] := by
  rw [waiting, pending_injectInto, List.filter_append, List.map_append,
    GrammarSource.deferred_to, waiting]

/-- What waited for a scope waits no longer when its grammar is there. -/
theorem waiting_takePending (builder : Builder) (taken : String) (root : NodeId) (scope : String) :
    (builder.takePending taken root).waiting scope =
      if scope = taken then [] else builder.waiting scope := by
  simp only [takePending, waiting, List.partition_eq_filter_filter, List.filter_filter]
  by_cases hScope : scope = taken
  · simp [hScope]
  · rw [if_neg hScope]
    congr 1
    apply List.filter_congr
    intro entry _
    by_cases hEntry : entry.1 = scope
    · simp [hEntry, hScope]
    · simp [hEntry]

/-- A rule gains what waited for the scope whose root it is. -/
theorem rules_takePending (builder : Builder) (scope : String) (root : NodeId) (index : Nat) :
    (builder.takePending scope root).rules[index]? = builder.rules[index]?.map fun rule =>
      rule.addInjections (if root.index = index then builder.waiting scope else []) := by
  by_cases hIndex : root.index = index
  · simp [takePending, Array.getElem?_modify, hIndex, waiting, Rule.addInjections]
  · simp [takePending, Array.getElem?_modify, hIndex, Rule.addInjections_nil]

theorem size_takePending (builder : Builder) (scope : String) (root : NodeId) :
    (builder.takePending scope root).rules.size = builder.rules.size :=
  Array.size_modify

/-! ## Adding -/

/-- A grammar that fails leaves the builder as it was. -/
theorem eq_of_addGrammar_error (hAdd : builder.addGrammar source = (.error failure, after)) :
    after = builder ∧ ∃ compiled, (compileRoot (builder.scoping source) source).run.run builder =
      (.error failure, compiled) := by
  simp only [addGrammar] at hAdd
  split at hAdd
  · next stopped compiled hRun =>
    have hExtends := (confined_compileRoot (builder.scoping source) source).of_run hRun
    rw [hExtends.truncate_eq] at hAdd
    cases hAdd
    exact ⟨rfl, compiled, hRun⟩
  · cases hAdd

/-- A grammar that goes through is compiled, entered, injected where it asks for, and given the
injections that waited for it. -/
theorem exists_of_addGrammar_ok (hAdd : builder.addGrammar source = (.ok root, after)) :
    root = ⟨builder.rules.size⟩ ∧ ∃ rule compiled,
      (compileRoot (builder.scoping source) source).run.run builder = (.ok rule, compiled) ∧
      after = ((compiled.enter (builder.scoping source) rule).injectInto source root).takePending
        source.scopeName root := by
  simp only [addGrammar] at hAdd
  split at hAdd
  · cases hAdd
  · next rule compiled hRun =>
    cases hAdd
    exact ⟨rfl, rule, compiled, hRun, rfl⟩

/-- A grammar that went through is entered under its scope name. -/
theorem enter_frame
    (hRun : (compileRoot (builder.scoping source) source).run.run builder = (.ok rule, compiled)) :
    (compiled.enter (builder.scoping source) rule).roots =
        builder.roots.put source.scopeName ⟨builder.rules.size⟩ ∧
      (compiled.enter (builder.scoping source) rule).repositories =
        builder.repositories.put source.scopeName
          (Loaded.repository ⟨source, ⟨builder.rules.size⟩⟩) ∧
      (compiled.enter (builder.scoping source) rule).pending = builder.pending ∧
      (compiled.enter (builder.scoping source) rule).rules.size = compiled.rules.size := by
  have hExtends := (confined_compileRoot (builder.scoping source) source).of_run hRun
  refine ⟨?_, ?_, hExtends.pending_eq, Array.size_setIfInBounds⟩
  · show compiled.roots.put source.scopeName ⟨builder.rules.size⟩ = _
    rw [hExtends.roots_eq]
  · show compiled.repositories.put source.scopeName
      (Loaded.repository ⟨source, ⟨builder.rules.size⟩⟩) = _
    rw [hExtends.repositories_eq]

/-- Entering and injecting take no places. -/
theorem size_of_addGrammar_ok
    (hRun : (compileRoot (builder.scoping source) source).run.run builder = (.ok rule, compiled))
    (hAdd : builder.addGrammar source = (.ok root, after)) :
    after.rules.size = compiled.rules.size := by
  obtain ⟨rfl, rule, _, hSame, rfl⟩ := exists_of_addGrammar_ok hAdd
  rw [hRun] at hSame
  cases hSame
  rw [size_takePending, (injectInto_frame _ _ _).2.2, (enter_frame hRun).2.2.2]

/-- Added under its scope name, a grammar is what that name means from then on. -/
theorem tables_of_addGrammar_ok (hAdd : builder.addGrammar source = (.ok root, after)) :
    after.roots = builder.roots.put source.scopeName root ∧
      after.repositories =
        builder.repositories.put source.scopeName (Loaded.repository ⟨source, root⟩) ∧
      root.index + source.repository.length < after.rules.size := by
  obtain ⟨hRoot, rule, compiled, hRun, hAfter⟩ := exists_of_addGrammar_ok hAdd
  have hSize := size_of_addGrammar_ok hRun hAdd
  have hPlaces := size_le_of_compileRoot hRun
  subst hRoot hAfter
  obtain ⟨hEnteredRoots, hEnteredRepositories, -, -⟩ := enter_frame hRun
  obtain ⟨hRoots, hRepositories, -⟩ :=
    injectInto_frame (compiled.enter (builder.scoping source) rule) source ⟨builder.rules.size⟩
  refine ⟨hRoots.trans hEnteredRoots, hRepositories.trans hEnteredRepositories, ?_⟩
  rw [hSize]
  show builder.rules.size + source.repository.length < compiled.rules.size
  omega

/-- Apart from the new root, a rule is as compiling left it, with the injections for which it was
chosen. -/
theorem rules_of_addGrammar_ok
    (hRun : (compileRoot (builder.scoping source) source).run.run builder = (.ok rule, compiled))
    (hAdd : builder.addGrammar source = (.ok root, after)) {index : Nat}
    (hOther : index ≠ root.index) :
    after.rules[index]? = compiled.rules[index]?.map fun rule =>
      rule.addInjections (source.injected root fun target =>
        target ≠ source.scopeName ∧ builder.roots.lookup target = some ⟨index⟩) := by
  obtain ⟨rfl, rule, _, hSame, rfl⟩ := exists_of_addGrammar_ok hAdd
  rw [hRun] at hSame
  cases hSame
  have hRoots (target : String) :
      (compiled.enter (builder.scoping source) rule).roots.lookup target = some ⟨index⟩ ↔
        target ≠ source.scopeName ∧ builder.roots.lookup target = some ⟨index⟩ := by
    have hNew : (⟨builder.rules.size⟩ : NodeId) ≠ ⟨index⟩ :=
      fun h => hOther (congrArg NodeId.index h).symm
    rw [(enter_frame hRun).1, Table.lookup_put]
    by_cases hScope : target = source.scopeName
    · simp [hScope, hNew]
    · simp [hScope]
  rw [rules_takePending, if_neg hOther.symm, rules_injectInto]
  have hEntered : (compiled.enter (builder.scoping source) rule).rules[index]? =
      compiled.rules[index]? := Array.getElem?_setIfInBounds_ne hOther.symm
  simp only [Rule.addInjections_nil, Option.map_id', hEntered, hRoots]

/-- A rule that was there stays as it is, with the injections for which it was chosen. -/
theorem earlier_rules_of_addGrammar_ok (hAdd : builder.addGrammar source = (.ok root, after))
    {index : Nat} (hThere : index < builder.rules.size) :
    after.rules[index]? = builder.rules[index]?.map fun rule =>
      rule.addInjections (source.injected root fun target =>
        target ≠ source.scopeName ∧ builder.roots.lookup target = some ⟨index⟩) := by
  obtain ⟨hNew, rule, compiled, hRun, -⟩ := exists_of_addGrammar_ok hAdd
  have hExtends := (confined_compileRoot (builder.scoping source) source).of_run hRun
  have hOther : index ≠ root.index := by
    rw [hNew]
    exact Nat.ne_of_lt hThere
  rw [rules_of_addGrammar_ok hRun hAdd hOther, hExtends.kept index hThere id]

/-- The root of a grammar is as it was compiled, with what the grammar injects into itself and what
waited for it. -/
theorem root_of_addGrammar_ok
    (hRun : (compileRoot (builder.scoping source) source).run.run builder = (.ok rule, compiled))
    (hAdd : builder.addGrammar source = (.ok root, after)) :
    after.rules[root.index]? = some (rule.addInjections
      (source.injected root (fun target => after.roots.lookup target = some root) ++
        builder.waiting source.scopeName)) := by
  have hTables := (tables_of_addGrammar_ok hAdd).1
  obtain ⟨rfl, _, _, hSame, rfl⟩ := exists_of_addGrammar_ok hAdd
  rw [hRun] at hSame
  cases hSame
  obtain ⟨hRoots, -, hPending, -⟩ := enter_frame hRun
  have hPlace : builder.rules.size < compiled.rules.size := by
    have hSize := size_le_of_compileRoot hRun
    omega
  have hEntered : (compiled.enter (builder.scoping source) rule).rules[builder.rules.size]? =
      some rule := Array.getElem?_setIfInBounds_self_of_lt hPlace
  have hWaiting : (compiled.enter (builder.scoping source) rule).waiting source.scopeName =
      builder.waiting source.scopeName := by
    rw [waiting, hPending, waiting]
  have hThere : (builder.roots.put source.scopeName ⟨builder.rules.size⟩).lookup
      source.scopeName ≠ none := by
    rw [Table.lookup_put, if_pos rfl]
    exact Option.some_ne_none _
  rw [rules_takePending, if_pos rfl, rules_injectInto, hEntered, waiting_injectInto, hWaiting,
    hRoots, if_neg hThere, List.append_nil, hTables, Option.map_some, Option.map_some,
    Rule.addInjections_append]

/-- After a grammar is added, what waited still waits, and so does what it asks for in scopes that
are not there yet, but for what waited for the grammar itself. -/
theorem pending_of_addGrammar_ok (hAdd : builder.addGrammar source = (.ok root, after)) :
    after.pending = (builder.pending ++ source.deferred root after.roots).filter
      fun entry => !(entry.1 == source.scopeName) := by
  rw [(tables_of_addGrammar_ok hAdd).1]
  obtain ⟨rfl, rule, compiled, hRun, rfl⟩ := exists_of_addGrammar_ok hAdd
  obtain ⟨hRoots, -, hPending, -⟩ := enter_frame hRun
  simp only [takePending, List.partition_eq_filter_filter, pending_injectInto, hRoots, hPending]
  rfl

/-- After a grammar is added, injections wait for the other scopes as before, and those it asks for
in scopes that are not there yet. -/
theorem waiting_of_addGrammar_ok (hAdd : builder.addGrammar source = (.ok root, after))
    (scope : String) :
    after.waiting scope =
      if scope = source.scopeName then []
      else builder.waiting scope ++
        if builder.roots.lookup scope = none then
          source.injected root fun target => target = scope
        else [] := by
  obtain ⟨rfl, rule, compiled, hRun, rfl⟩ := exists_of_addGrammar_ok hAdd
  obtain ⟨hRoots, -, hPending, -⟩ := enter_frame hRun
  have hWaiting : (compiled.enter (builder.scoping source) rule).waiting scope =
      builder.waiting scope := by
    rw [waiting, hPending, waiting]
  rw [waiting_takePending, waiting_injectInto, hRoots, hWaiting, Table.lookup_put]
  by_cases hScope : scope = source.scopeName
  · rw [if_pos hScope, if_pos hScope]
  · rw [if_neg hScope, if_neg hScope, if_neg hScope]

/-! ## The tables of a builder -/

/-- The tables of a builder say what scope names mean, and every root is a rule that is there. -/
structure Agrees (loaded : List Loaded) (builder : Builder) : Prop
    extends Loaded.InTables loaded builder.roots builder.repositories where
  root_lt : ∀ grammar ∈ loaded, grammar.root.index < builder.rules.size

namespace Agrees

variable {loaded : List Loaded}

/-- A grammar that goes through becomes what its scope name means. -/
theorem addGrammar_ok (hAgrees : builder.Agrees loaded)
    (hAdd : builder.addGrammar source = (.ok root, after)) :
    after.Agrees (⟨source, root⟩ :: loaded) := by
  obtain ⟨hRoots, hRepositories, hSize⟩ := tables_of_addGrammar_ok hAdd
  obtain ⟨hNew, rule, compiled, hRun, -⟩ := exists_of_addGrammar_ok hAdd
  refine ⟨⟨fun scope => ?_, fun scope => ?_⟩, ?_⟩
  · rw [hRoots, Table.lookup_put, hAgrees.roots_eq, Loaded.current?_cons]
    split <;> rfl
  · rw [hRepositories, Table.lookup_put, hAgrees.repositories_eq, Loaded.current?_cons]
    split <;> rfl
  · intro grammar hMem
    rcases List.mem_cons.1 hMem with rfl | hMem
    · show root.index < after.rules.size
      omega
    · have hOld : grammar.root.index < builder.rules.size := hAgrees.root_lt grammar hMem
      have hIndex : root.index = builder.rules.size := congrArg NodeId.index hNew
      omega

/-- Rules may be added and changed. -/
theorem of_rules {builder changed : Builder} (hAgrees : builder.Agrees loaded)
    (hRoots : changed.roots = builder.roots)
    (hRepositories : changed.repositories = builder.repositories)
    (hSize : builder.rules.size ≤ changed.rules.size) : changed.Agrees loaded where
  roots_eq := by
    rw [hRoots]
    exact hAgrees.roots_eq
  repositories_eq := by
    rw [hRepositories]
    exact hAgrees.repositories_eq
  root_lt grammar hMem := Nat.lt_of_lt_of_le (hAgrees.root_lt grammar hMem) hSize

end Agrees

/-- What a grammar has compiled behind its root stays as it is. -/
theorem Agrees.rules_of_addGrammar_ok {loaded : List Loaded} (hAgrees : builder.Agrees loaded)
    (hRun : (compileRoot (builder.scoping source) source).run.run builder = (.ok rule, compiled))
    (hAdd : builder.addGrammar source = (.ok root, after)) {index : Nat}
    (hIndex : builder.rules.size < index) : after.rules[index]? = compiled.rules[index]? := by
  have hRoot : root = ⟨builder.rules.size⟩ := (exists_of_addGrammar_ok hAdd).1
  have hNone (target : String) : builder.roots.lookup target ≠ some ⟨index⟩ := by
    intro hLookup
    rw [hAgrees.roots_eq] at hLookup
    obtain ⟨grammar, hCurrent, hSame⟩ := Option.map_eq_some_iff.1 hLookup
    have hOld := hAgrees.root_lt grammar (List.mem_of_find?_eq_some hCurrent)
    rw [hSame] at hOld
    exact absurd hOld (Nat.not_lt.2 (Nat.le_of_lt hIndex))
  rw [Builder.rules_of_addGrammar_ok hRun hAdd (by rw [hRoot]; exact Nat.ne_of_gt hIndex)]
  have hNothing : source.injected root (fun target =>
      target ≠ source.scopeName ∧ builder.roots.lookup target = some ⟨index⟩) = [] :=
    GrammarSource.injected_eq_nil fun target _ => by simp [hNone target]
  simp only [hNothing, Rule.addInjections_nil, Option.map_id']

/-- Adding in some form is adding the grammar that is read, if one is. -/
theorem add_eq_of_read {form : GrammarForm} (hRead : form.read = .ok source) :
    builder.add form = builder.addGrammar source := by
  rw [add, hRead]

/-- A grammar that is not added changes nothing, whether it was read or not. -/
theorem eq_of_add_error {form : GrammarForm} (hAdd : builder.add form = (.error failure, after)) :
    after = builder := by
  cases hRead : form.read with
  | error unread =>
    rw [add, hRead] at hAdd
    cases hAdd
    rfl
  | ok source =>
    rw [add_eq_of_read hRead] at hAdd
    exact (eq_of_addGrammar_error hAdd).1

/-- What holds of a new builder and is kept when rules are added or changed, and when a grammar is
added, holds of every builder that a host can come to. -/
theorem Built.induction {motive : List Loaded → Builder → Prop} (empty : motive [] {})
    (rules : ∀ {loaded builder changed}, motive loaded builder → changed.roots = builder.roots →
      changed.repositories = builder.repositories → changed.pending = builder.pending →
      builder.rules.size ≤ changed.rules.size → motive loaded changed)
    (added : ∀ {loaded builder source root after}, motive loaded builder →
      builder.addGrammar source = (.ok root, after) → motive (⟨source, root⟩ :: loaded) after)
    {loaded : List Loaded} (hBuilt : Built loaded builder) : motive loaded builder := by
  induction hBuilt with
  | empty => exact empty
  | addRule before rule ih =>
    refine rules ih rfl rfl rfl ?_
    simp [Builder.addRule]
  | modifyRule before hChange ih =>
    simp only [Builder.modifyRule] at hChange
    split at hChange
    · cases hChange
      exact rules ih rfl rfl rfl (by simp)
    · contradiction
  | added before hRead hAdd ih =>
    rw [add_eq_of_read hRead] at hAdd
    exact added ih hAdd
  | refused before hAdd ih =>
    rw [eq_of_add_error hAdd]
    exact ih

theorem agrees_empty : ({} : Builder).Agrees [] where
  roots_eq _ := rfl
  repositories_eq _ := rfl
  root_lt _ hMem := absurd hMem List.not_mem_nil

/-- The tables of a builder that a host can come to say what was added to it. -/
theorem Built.agrees {loaded : List Loaded} (hBuilt : Built loaded builder) :
    builder.Agrees loaded := by
  refine Built.induction (motive := fun loaded builder => builder.Agrees loaded) agrees_empty ?_
    Agrees.addGrammar_ok hBuilt
  intro loaded builder changed hAgrees hRoots hRepositories _ hSize
  exact hAgrees.of_rules hRoots hRepositories hSize

/-! ## Loading -/

/-- The builder that is left when a form is added, and the grammars added so far. -/
def loadNext (state : List Loaded × Builder) (form : GrammarForm) : List Loaded × Builder :=
  match form.read, state.2.add form with
  | .ok source, (.ok root, after) => (⟨source, root⟩ :: state.1, after)
  | _, (_, after) => (state.1, after)

/-- The builder that is left when grammars are added to a new one, one after another, whether they
go through or not; and those that went through, the last one first. -/
def load (forms : List GrammarForm) : List Loaded × Builder :=
  forms.foldl loadNext ([], {})

/-- A form that is not added leaves everything as it was. -/
theorem loadNext_cases (state : List Loaded × Builder) (form : GrammarForm) :
    loadNext state form = state ∨ ∃ source root after,
      form.read = .ok source ∧ state.2.addGrammar source = (.ok root, after) ∧
        loadNext state form = (⟨source, root⟩ :: state.1, after) := by
  cases hRead : form.read with
  | error unread =>
    rcases hAdd : state.2.add form with ⟨result, after⟩
    have hSame : after = state.2 := by
      rw [add, hRead] at hAdd
      cases hAdd
      rfl
    left
    simp only [loadNext, hRead, hAdd, hSame]
  | ok source =>
    rcases hAdd : state.2.add form with ⟨failure | root, after⟩
    · left
      simp only [loadNext, hRead, hAdd, eq_of_add_error hAdd]
    · right
      refine ⟨source, root, after, rfl, ?_, by simp only [loadNext, hRead, hAdd]⟩
      rw [← add_eq_of_read hRead, hAdd]

/-- What holds of a new builder and is kept by every grammar that is added holds of every builder
that is loaded. -/
theorem load_induction {motive : List Loaded → Builder → Prop} (empty : motive [] {})
    (added : ∀ {loaded builder source root after}, motive loaded builder →
      builder.addGrammar source = (.ok root, after) → motive (⟨source, root⟩ :: loaded) after)
    (forms : List GrammarForm) : motive (load forms).1 (load forms).2 := by
  suffices hOn : ∀ state : List Loaded × Builder, motive state.1 state.2 →
      motive (forms.foldl loadNext state).1 (forms.foldl loadNext state).2 from hOn ([], {}) empty
  induction forms with
  | nil => exact fun state hState => hState
  | cons form forms ih =>
    intro state hState
    rw [List.foldl_cons]
    rcases loadNext_cases state form with hSame | ⟨source, root, after, -, hAdd, hNext⟩
    · rw [hSame]
      exact ih state hState
    · rw [hNext]
      exact ih _ (added hState hAdd)

/-- Adding a grammar, in whatever form, leaves the builder as it was if it fails.  If it gives a
root, that is the next handle, and every rule that was there is as it was but for the injections
that the grammar asks for: one for each mention of another scope name whose current grammar has the
rule as its root.  Those roots are rules that were there. -/
theorem add_keeps_earlier_rules {loaded : List Loaded} (hBuilt : Built loaded builder)
    (form : GrammarForm) :
    (∀ failure after, builder.add form = (.error failure, after) → after = builder) ∧
    (∀ root after, builder.add form = (.ok root, after) → ∃ source,
      form.read = .ok source ∧ root = ⟨builder.rules.size⟩ ∧
      (∀ (node : NodeId) (rule : Rule), builder.rules[node.index]? = some rule →
        after.rules[node.index]? = some (rule.addInjections (source.injected root fun target =>
          target ≠ source.scopeName ∧
            (Loaded.current? loaded target).map Loaded.root = some node))) ∧
      (∀ target grammar, Loaded.current? loaded target = some grammar →
        ∃ rule, builder.rules[grammar.root.index]? = some rule)) := by
  have hAgrees : builder.Agrees loaded := hBuilt.agrees
  refine ⟨fun failure after hAdd => eq_of_add_error hAdd, fun root after hAdd => ?_⟩
  cases hRead : form.read with
  | error unread =>
    rw [add, hRead] at hAdd
    cases hAdd
  | ok source =>
    rw [add_eq_of_read hRead] at hAdd
    obtain ⟨hNew, rule, compiled, hRun, -⟩ := exists_of_addGrammar_ok hAdd
    have hExtends := (confined_compileRoot (builder.scoping source) source).of_run hRun
    refine ⟨source, rfl, hNew, fun node rule hRule => ?_, fun target grammar hCurrent => ?_⟩
    · have hNode : node.index < builder.rules.size := (Array.getElem?_eq_some_iff.1 hRule).1
      have hOther : node.index ≠ root.index := by
        rw [hNew]
        exact Nat.ne_of_lt hNode
      rw [rules_of_addGrammar_ok hRun hAdd hOther, hExtends.kept node.index hNode id, hRule,
        Option.map_some]
      simp only [hAgrees.roots_eq]
    · have hMem : grammar ∈ loaded := List.mem_of_find?_eq_some hCurrent
      exact ⟨_, Array.getElem?_eq_getElem (hAgrees.root_lt grammar hMem)⟩

/-- A grammar with one rule. -/
def letterGrammar (scope pattern : String) : GrammarSource where
  scopeName := scope
  patterns := [{ matchPattern := some pattern }]

/-- A builder with two grammars of one scope name. -/
def hostBuilder : Builder :=
  ((({} : Builder).addGrammar (letterGrammar "host" "a")).2.addGrammar
    (letterGrammar "host" "b")).2

/-- A grammar that mentions the scope name of `hostBuilder` twice. -/
def guestGrammar : GrammarSource where
  scopeName := "guest"
  patterns := [{ includes := some "host" }]
  injectionSelector := some "host"
  injectTo := ["host", "other", "guest", "host"]

theorem hostBuilder_built :
    hostBuilder.Built [⟨letterGrammar "host" "b", ⟨2⟩⟩, ⟨letterGrammar "host" "a", ⟨0⟩⟩] := by
  have hFirst : ({} : Builder).add (.source (letterGrammar "host" "a")) =
      (.ok ⟨0⟩, (({} : Builder).addGrammar (letterGrammar "host" "a")).2) := rfl
  have hSecond : (({} : Builder).addGrammar (letterGrammar "host" "a")).2.add
      (.source (letterGrammar "host" "b")) = (.ok ⟨2⟩, hostBuilder) := rfl
  exact Built.added (Built.added .empty rfl hFirst) rfl hSecond

/-- Of two grammars of one scope name the later one is injected into, once for each mention. -/
theorem injected_into_the_later_grammar :
    hostBuilder.Built [⟨letterGrammar "host" "b", ⟨2⟩⟩, ⟨letterGrammar "host" "a", ⟨0⟩⟩] ∧
    (hostBuilder.add (.source guestGrammar)).1 = .ok ⟨4⟩ ∧
    (hostBuilder.add (.source guestGrammar)).2.rules[2]? = some
      { name := some "host", children := [⟨3⟩],
        injections := [⟨"host", ⟨4⟩⟩, ⟨"host", ⟨4⟩⟩] } ∧
    (hostBuilder.add (.source guestGrammar)).2.rules[0]? = some
      { name := some "host", children := [⟨1⟩] } := by
  have hRoot : (hostBuilder.add (.source guestGrammar)).1 = .ok ⟨4⟩ := rfl
  have hAdd : hostBuilder.add (.source guestGrammar) =
      (.ok ⟨4⟩, (hostBuilder.add (.source guestGrammar)).2) := Prod.ext hRoot rfl
  obtain ⟨-, hKept⟩ := add_keeps_earlier_rules hostBuilder_built (.source guestGrammar)
  obtain ⟨source, hRead, -, hRules, -⟩ := hKept ⟨4⟩ _ hAdd
  cases hRead
  have hLater : hostBuilder.rules[2]? = some { name := some "host", children := [⟨3⟩] } := by
    decide +kernel
  have hEarlier : hostBuilder.rules[0]? = some { name := some "host", children := [⟨1⟩] } := by
    decide +kernel
  refine ⟨hostBuilder_built, hRoot, ?_, ?_⟩
  · rw [hRules ⟨2⟩ _ hLater]
    decide
  · rw [hRules ⟨0⟩ _ hEarlier]
    decide

end Builder

end GrammarSearch
