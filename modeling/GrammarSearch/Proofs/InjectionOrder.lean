import GrammarSearch.Proofs.ClosedTrees
import GrammarSearch.Proofs.LexicalScoping

/-!
# Injections in any order of loading

A grammar may ask to be injected into grammars that are there, which happens at once, and into
grammars that come later, for which the injections wait.  In the end this makes no difference: if
no two grammars have one scope name and none asks for itself, then the root of every grammar has the
injections of the grammar itself, and after them those that were asked for in its scope, in the
order in which the grammars that asked were added (`Builder.injections_follow_loading_order`).

`Builder.Injected` is the invariant of loading.  What has been asked for in a scope (`Loaded.asked`)
is at the root of the grammar if that is there, and waits if it is not, and nothing else in the tree
has injections.  A grammar that is added leaves the rules behind earlier roots as they were
compiled, so `StandsIn` stays true of them until the tree is built.
-/

namespace GrammarSearch

namespace Loaded

/-- The injections that grammars ask for in a scope, in the order in which they were added: one for
every mention. -/
def asked (loaded : List Loaded) (scope : String) : List Injection :=
  loaded.reverse.flatMap fun grammar =>
    grammar.source.injected grammar.root fun target => target = scope

theorem asked_cons (grammar : Loaded) (loaded : List Loaded) (scope : String) :
    asked (grammar :: loaded) scope =
      asked loaded scope ++ grammar.source.injected grammar.root fun target => target = scope := by
  simp [asked]

/-- Grammars of different scope names, none of which asks to be injected into itself. -/
structure Separate (loaded : List Loaded) : Prop where
  scopes_nodup : (loaded.map fun grammar => grammar.source.scopeName).Nodup
  not_own : ∀ grammar ∈ loaded, grammar.source.scopeName ∉ grammar.source.injectTo

instance (loaded : List Loaded) : Decidable (Separate loaded) :=
  decidable_of_iff
    ((loaded.map fun grammar => grammar.source.scopeName).Nodup ∧
      ∀ grammar ∈ loaded, grammar.source.scopeName ∉ grammar.source.injectTo)
    ⟨fun ⟨hScopes, hOwn⟩ => ⟨hScopes, hOwn⟩, fun ⟨hScopes, hOwn⟩ => ⟨hScopes, hOwn⟩⟩

theorem Separate.tail {grammar : Loaded} {loaded : List Loaded}
    (h : Separate (grammar :: loaded)) : Separate loaded where
  scopes_nodup := (List.nodup_cons.1 h.scopes_nodup).2
  not_own other hMem := h.not_own other (List.mem_cons_of_mem _ hMem)

theorem scope_of_current? {loaded : List Loaded} {scope : String} {grammar : Loaded}
    (hCurrent : current? loaded scope = some grammar) : grammar.source.scopeName = scope := by
  simpa using List.find?_some hCurrent

theorem scope_ne_of_mem {first grammar : Loaded} {rest : List Loaded}
    (hScopes : ((first :: rest).map fun grammar => grammar.source.scopeName).Nodup)
    (hMem : grammar ∈ rest) : grammar.source.scopeName ≠ first.source.scopeName :=
  fun hSame => (List.nodup_cons.1 hScopes).1 (List.mem_map.2 ⟨grammar, hMem, hSame⟩)

/-- Among grammars of different scope names each is what its own means. -/
theorem current?_of_mem {loaded : List Loaded}
    (hScopes : (loaded.map fun grammar => grammar.source.scopeName).Nodup) {grammar : Loaded}
    (hMem : grammar ∈ loaded) : current? loaded grammar.source.scopeName = some grammar := by
  induction loaded with
  | nil => exact absurd hMem List.not_mem_nil
  | cons first rest ih =>
    rw [current?_cons]
    rcases List.mem_cons.1 hMem with rfl | hMem
    · rw [if_pos rfl]
    · rw [if_neg (scope_ne_of_mem hScopes hMem), ih (List.nodup_cons.1 hScopes).2 hMem]

end Loaded

namespace Builder

open Compilation Loaded

/-- A grammar stands among rules as it was compiled after earlier grammars and before later ones,
but for injections that its root has gained. -/
structure StandsBetween (rules : Array Rule) (later earlier : List Loaded) (grammar : Loaded)
    (gained : List Injection) (before compiled : Builder) (rule : Rule) : Prop where
  agrees : before.Agrees earlier
  root_eq : grammar.root = ⟨before.rules.size⟩
  run_eq : (compileRoot (before.scoping grammar.source) grammar.source).run.run before =
    (.ok rule, compiled)
  later_ge : ∀ other ∈ later, compiled.rules.size ≤ other.root.index
  size_le : compiled.rules.size ≤ rules.size
  kept : Keeps rules compiled fun index =>
    before.rules.size < index ∧ index < compiled.rules.size
  root_rule : rules[grammar.root.index]? = some (rule.addInjections gained)

/-- What grammars have asked for is at the roots that are there, after the injections of the grammar
itself, and waits for those that are not; and no other rule has injections. -/
structure Injected (loaded : List Loaded) (builder : Builder) : Prop where
  agrees : builder.Agrees loaded
  stands : ∀ later grammar earlier, loaded = later ++ grammar :: earlier →
    ∃ before compiled rule, StandsBetween builder.rules later earlier grammar
      (asked loaded grammar.source.scopeName) before compiled rule
  waiting_eq : ∀ scope, builder.waiting scope =
    if current? loaded scope = none then asked loaded scope else []
  only_roots : ∀ (node : NodeId) (rule : Rule), builder.rules[node.index]? = some rule →
    rule.injections ≠ [] → ∃ grammar ∈ loaded, grammar.root = node

variable {loaded later earlier : List Loaded} {builder before compiled after : Builder}
variable {source : GrammarSource} {grammar : Loaded} {root : NodeId} {rule : Rule}
variable {gained : List Injection}

theorem Injected.empty : Injected [] {} where
  agrees := ⟨⟨fun _ => rfl, fun _ => rfl⟩, fun _ hMem => absurd hMem List.not_mem_nil⟩
  stands later grammar earlier hLoaded := absurd hLoaded (by simp)
  waiting_eq scope := rfl
  only_roots node rule hRule := absurd hRule (by simp)

namespace StandsBetween

theorem root_lt
    (h : StandsBetween builder.rules later earlier grammar gained before compiled rule) :
    before.rules.size < compiled.rules.size := by
  have hPlaces := size_le_of_compileRoot h.run_eq
  omega

/-- The root of another grammar is neither the root of this one nor behind it. -/
theorem outside
    (h : StandsBetween builder.rules later earlier grammar gained before compiled rule)
    {other : Loaded} (hMem : other ∈ later ∨ other ∈ earlier) :
    other.root.index < before.rules.size ∨ compiled.rules.size ≤ other.root.index := by
  rcases hMem with hLater | hEarlier
  · exact .inr (h.later_ge other hLater)
  · exact .inl (h.agrees.root_lt other hEarlier)

/-- A scope means the grammar whose root is the one of a grammar only if it is the scope of that
grammar. -/
theorem lookup_root_iff (hSeparate : Separate (later ++ grammar :: earlier))
    (h : StandsBetween builder.rules later earlier grammar gained before compiled rule)
    (hAgrees : builder.Agrees (later ++ grammar :: earlier)) {scope : String} :
    builder.roots.lookup scope = some grammar.root ↔ scope = grammar.source.scopeName := by
  rw [hAgrees.roots_eq]
  constructor
  · intro hLookup
    obtain ⟨other, hCurrent, hRoot⟩ := Option.map_eq_some_iff.1 hLookup
    have hIndex : other.root.index = before.rules.size := by
      rw [hRoot, h.root_eq]
    have hThere := h.root_lt
    rcases List.mem_append.1 (List.mem_of_find?_eq_some hCurrent) with hLater | hMem
    · have hOut := h.outside (.inl hLater)
      omega
    rcases List.mem_cons.1 hMem with rfl | hEarlier
    · exact (scope_of_current? hCurrent).symm
    · have hOut := h.outside (.inr hEarlier)
      omega
  · rintro rfl
    rw [current?_of_mem hSeparate.scopes_nodup
      (List.mem_append_right later List.mem_cons_self), Option.map_some]

/-- A grammar that is added later leaves everything behind the root as it was, and gives the root
the injections that it asks for in its scope. -/
theorem addGrammar_ok (hSeparate : Separate (⟨source, root⟩ :: later ++ grammar :: earlier))
    (h : StandsBetween builder.rules later earlier grammar gained before compiled rule)
    (hAgrees : builder.Agrees (later ++ grammar :: earlier))
    (hAdd : builder.addGrammar source = (.ok root, after)) :
    StandsBetween after.rules (⟨source, root⟩ :: later) earlier grammar
      (gained ++ source.injected root fun target => target = grammar.source.scopeName)
      before compiled rule := by
  obtain ⟨hRoot, written, added, hRun, -⟩ := exists_of_addGrammar_ok hAdd
  have hExtends := (confined_compileRoot (builder.scoping source) source).of_run hRun
  have hSize := size_of_addGrammar_ok hRun hAdd
  have hGrows := hExtends.size_le
  have hThere := h.root_lt
  have hStop := h.size_le
  have hOld {index : Nat} (hIndex : index < compiled.rules.size) :
      after.rules[index]? = builder.rules[index]?.map fun rule =>
        rule.addInjections (source.injected root fun target =>
          target ≠ source.scopeName ∧ builder.roots.lookup target = some ⟨index⟩) := by
    exact earlier_rules_of_addGrammar_ok hAdd (Nat.lt_of_lt_of_le hIndex hStop)
  refine ⟨h.agrees, h.root_eq, h.run_eq, ?_, by omega, ?_, ?_⟩
  · intro other hMem
    rcases List.mem_cons.1 hMem with rfl | hLater
    · rw [hRoot]
      exact hStop
    · exact h.later_ge other hLater
  · intro index hIndex
    have hNone (target : String) : builder.roots.lookup target ≠ some ⟨index⟩ := by
      intro hLookup
      rw [hAgrees.roots_eq] at hLookup
      obtain ⟨other, hCurrent, hSame⟩ := Option.map_eq_some_iff.1 hLookup
      have hOther : other.root.index = index := congrArg NodeId.index hSame
      rcases List.mem_append.1 (List.mem_of_find?_eq_some hCurrent) with hLater | hMem
      · have hOut := h.outside (.inl hLater)
        omega
      rcases List.mem_cons.1 hMem with rfl | hEarlier
      · rw [h.root_eq] at hOther
        exact absurd hOther (Nat.ne_of_lt hIndex.1)
      · have hOut := h.outside (.inr hEarlier)
        omega
    rw [hOld hIndex.2, GrammarSource.injected_eq_nil fun target _ => by simp [hNone target]]
    simp only [Rule.addInjections_nil, Option.map_id']
    exact h.kept index hIndex
  · have hIndex : grammar.root.index < compiled.rules.size := by
      rw [h.root_eq]
      exact hThere
    have hOther : grammar.source.scopeName ≠ source.scopeName :=
      scope_ne_of_mem hSeparate.scopes_nodup (List.mem_append_right later List.mem_cons_self)
    have hChosen (target : String) :
        (target ≠ source.scopeName ∧ builder.roots.lookup target = some grammar.root) ↔
          target = grammar.source.scopeName := by
      rw [h.lookup_root_iff hSeparate.tail hAgrees]
      exact ⟨fun hBoth => hBoth.2, fun hSame => ⟨hSame ▸ hOther, hSame⟩⟩
    rw [hOld hIndex, h.root_rule, Option.map_some, Rule.addInjections_append]
    simp only [hChosen]

end StandsBetween

/-- A grammar that is added gets all that was asked for in its scope. -/
theorem Injected.standsBetween_added (hSeparate : Separate (⟨source, root⟩ :: loaded))
    (h : builder.Injected loaded) (hAdd : builder.addGrammar source = (.ok root, after)) :
    ∃ compiled rule, StandsBetween after.rules [] loaded ⟨source, root⟩
      (asked (⟨source, root⟩ :: loaded) source.scopeName) builder compiled rule := by
  obtain ⟨hRoot, rule, compiled, hRun, -⟩ := exists_of_addGrammar_ok hAdd
  refine ⟨compiled, rule, h.agrees, hRoot, hRun, fun other hMem => absurd hMem List.not_mem_nil,
    Nat.le_of_eq (size_of_addGrammar_ok hRun hAdd).symm,
    fun index hIndex => h.agrees.rules_of_addGrammar_ok hRun hAdd hIndex.1, ?_⟩
  have hNotOwn : source.scopeName ∉ source.injectTo := hSeparate.not_own _ List.mem_cons_self
  have hNew : current? loaded source.scopeName = none :=
    List.find?_eq_none.2 fun other hMem hSame =>
      scope_ne_of_mem hSeparate.scopes_nodup hMem (of_decide_eq_true hSame)
  have hNone : source.injected root (fun target => after.roots.lookup target = some root) = [] := by
    refine GrammarSource.injected_eq_nil fun target hTarget => ?_
    have hOther : target ≠ source.scopeName := fun hSame => hNotOwn (hSame ▸ hTarget)
    rw [(tables_of_addGrammar_ok hAdd).1, Table.lookup_put, if_neg hOther, decide_eq_false_iff_not,
      h.agrees.roots_eq]
    intro hLookup
    obtain ⟨other, hCurrent, hSame⟩ := Option.map_eq_some_iff.1 hLookup
    have hOld := h.agrees.root_lt other (List.mem_of_find?_eq_some hCurrent)
    rw [hSame, hRoot] at hOld
    exact Nat.lt_irrefl _ hOld
  have hOwn : source.injected root (fun target => target = source.scopeName) = [] := by
    refine GrammarSource.injected_eq_nil fun target hTarget => ?_
    exact decide_eq_false fun hSame => hNotOwn (hSame ▸ hTarget)
  rw [root_of_addGrammar_ok hRun hAdd, hNone, h.waiting_eq, if_pos hNew, asked_cons, hOwn,
    List.nil_append, List.append_nil]

/-- Adding a grammar keeps the injections in place. -/
theorem Injected.addGrammar_ok (hSeparate : Separate (⟨source, root⟩ :: loaded))
    (hClosed : builder.Closed) (h : builder.Injected loaded)
    (hAdd : builder.addGrammar source = (.ok root, after)) :
    after.Injected (⟨source, root⟩ :: loaded) where
  agrees := h.agrees.addGrammar_ok hAdd
  stands := by
    intro later grammar earlier hLoaded
    cases later with
    | nil =>
      cases hLoaded
      obtain ⟨compiled, rule, hStands⟩ := h.standsBetween_added hSeparate hAdd
      exact ⟨_, compiled, rule, hStands⟩
    | cons first later =>
      cases hLoaded
      obtain ⟨before, compiled, rule, hStands⟩ := h.stands later grammar earlier rfl
      refine ⟨before, compiled, rule, ?_⟩
      rw [asked_cons]
      exact hStands.addGrammar_ok hSeparate h.agrees hAdd
  waiting_eq := by
    intro scope
    rw [waiting_of_addGrammar_ok hAdd, current?_cons, asked_cons]
    by_cases hScope : scope = source.scopeName
    · rw [if_pos hScope, if_pos hScope, if_neg (Option.some_ne_none _)]
    · have hThere : builder.roots.lookup scope = none ↔ current? loaded scope = none := by
        rw [h.agrees.roots_eq, Option.map_eq_none_iff]
      rw [if_neg hScope, if_neg hScope, h.waiting_eq]
      by_cases hNone : current? loaded scope = none
      · rw [if_pos hNone, if_pos hNone, if_pos (hThere.2 hNone)]
      · rw [if_neg hNone, if_neg hNone, if_neg fun hLookup => hNone (hThere.1 hLookup),
          List.append_nil]
  only_roots := by
    intro node rule hRule hSome
    by_cases hNode : node = root
    · exact ⟨⟨source, root⟩, List.mem_cons_self, hNode.symm⟩
    obtain ⟨hRoot, written, compiled, hRun, -⟩ := exists_of_addGrammar_ok hAdd
    have hExtends := (confined_compileRoot (builder.scoping source) source).of_run hRun
    have hIndex : node.index ≠ root.index := fun hSame => hNode (congrArg NodeId.mk hSame)
    rw [rules_of_addGrammar_ok hRun hAdd hIndex] at hRule
    obtain ⟨earlier, hEarlier, rfl⟩ := Option.map_eq_some_iff.1 hRule
    suffices hFound : ∃ grammar ∈ loaded, grammar.root = node by
      obtain ⟨grammar, hMem, hSame⟩ := hFound
      exact ⟨grammar, List.mem_cons_of_mem _ hMem, hSame⟩
    by_cases hInjections : earlier.injections = []
    · -- The rule had none before, so a scope whose root it is was mentioned.
      by_contra hNone
      refine hSome ?_
      show earlier.injections ++ _ = []
      rw [hInjections, List.nil_append]
      refine GrammarSource.injected_eq_nil fun target _ => ?_
      refine decide_eq_false fun hChosen => hNone ?_
      have hLookup : builder.roots.lookup target = some node := hChosen.2
      rw [h.agrees.roots_eq] at hLookup
      obtain ⟨grammar, hCurrent, hSame⟩ := Option.map_eq_some_iff.1 hLookup
      exact ⟨grammar, List.mem_of_find?_eq_some hCurrent, hSame⟩
    · by_cases hOld : node.index < builder.rules.size
      · rw [hExtends.kept node.index hOld id] at hEarlier
        exact h.only_roots node earlier hEarlier hInjections
      · have hNew := (contained_of_compileRoot (hClosed.below_scoping source) hRun).1
        exact absurd (hNew _ _ (Nat.not_lt.1 hOld) hEarlier).injections_eq hInjections

/-- However grammars of different scope names are loaded, the injections are in place. -/
theorem injected_load (forms : List GrammarForm) (hSeparate : Separate (load forms).1) :
    (load forms).2.Injected (load forms).1 := by
  have hAll : (load forms).2.Closed ∧
      (Separate (load forms).1 → (load forms).2.Injected (load forms).1) := by
    refine load_induction (motive := fun loaded builder => builder.Closed ∧
      (Separate loaded → builder.Injected loaded)) ⟨.empty, fun _ => .empty⟩ ?_ forms
    intro loaded builder source root after ⟨hClosed, hInjected⟩ hAdd
    exact ⟨hClosed.addGrammar_ok hAdd, fun hNext =>
      (hInjected hNext.tail).addGrammar_ok hNext hClosed hAdd⟩
  exact hAll.2 hSeparate

/-- However grammars of different scope names are loaded of which none asks for itself, and whether
others fail in between: in the tree the root of each has the injections of the grammar itself, and
after them those that grammars ask for in its scope, in the order in which they were added, one for
every mention.  No other rule has injections. -/
theorem injections_follow_loading_order (forms : List GrammarForm)
    (hSeparate : Separate (load forms).1) :
    (∀ later grammar earlier, (load forms).1 = later ++ grammar :: earlier →
      (load forms).2.build.root? grammar.source.scopeName = some grammar.root ∧
      ∃ entries children targets,
        Embodies (load forms).2.build.rules earlier grammar.source grammar.root entries children
          targets (asked (load forms).1 grammar.source.scopeName)) ∧
    (∀ node rule, (load forms).2.build.rule? node = some rule → rule.injections ≠ [] →
      ∃ grammar ∈ (load forms).1, grammar.root = node) := by
  have hInjected := injected_load forms hSeparate
  refine ⟨fun later grammar earlier hLoaded => ?_, hInjected.only_roots⟩
  obtain ⟨before, compiled, rule, hStands⟩ := hInjected.stands later grammar earlier hLoaded
  constructor
  · have hAgrees := hInjected.agrees
    rw [hLoaded] at hSeparate hAgrees
    exact (hStands.lookup_root_iff hSeparate hAgrees).2 rfl
  · have hRoot := hStands.root_rule
    rw [hStands.root_eq] at hRoot ⊢
    exact hStands.agrees.exists_embodies_of_run hStands.run_eq hStands.kept hRoot

/-- A grammar of one rule that asks to be injected under a selector. -/
def askingGrammar (scope selector : String) (injectTo : List String) : GrammarSource :=
  { letterGrammar scope scope with injectionSelector := some selector, injectTo }

/-- A grammar that asks for others and has an injection of its own. -/
def injectingGrammar : GrammarSource :=
  { askingGrammar "host" "b" ["early"] with
    injections := [("own", { matchPattern := some "d" })] }

/-- The host comes between two grammars that ask for it, the first of them twice, and after one that
fails although it asks for it too. -/
def mixedForms : List GrammarForm :=
  [.source (askingGrammar "early" "a" ["host", "late", "host"]),
    .source { askingGrammar "stray" "s" ["host"] with patterns := [{ includes := some "host" }] },
    .source injectingGrammar, .source (askingGrammar "late" "c" ["host", "early"])]

theorem mixed_injections_follow_loading_order :
    (load mixedForms).1 = [⟨askingGrammar "late" "c" ["host", "early"], ⟨5⟩⟩] ++
      ⟨injectingGrammar, ⟨2⟩⟩ :: [⟨askingGrammar "early" "a" ["host", "late", "host"], ⟨0⟩⟩] ∧
    Separate (load mixedForms).1 ∧
    (load mixedForms).2.build.root? "host" = some ⟨2⟩ ∧
    ∃ entries children targets, Embodies (load mixedForms).2.build.rules
      [⟨askingGrammar "early" "a" ["host", "late", "host"], ⟨0⟩⟩] injectingGrammar ⟨2⟩ entries
      children targets [⟨"a", ⟨0⟩⟩, ⟨"a", ⟨0⟩⟩, ⟨"c", ⟨5⟩⟩] := by
  have hLoaded : (load mixedForms).1 = [⟨askingGrammar "late" "c" ["host", "early"], ⟨5⟩⟩] ++
      ⟨injectingGrammar, ⟨2⟩⟩ :: [⟨askingGrammar "early" "a" ["host", "late", "host"], ⟨0⟩⟩] := rfl
  have hSeparate : Separate (load mixedForms).1 := by
    rw [hLoaded]
    decide
  have hAsked : asked (load mixedForms).1 "host" =
      [⟨"a", ⟨0⟩⟩, ⟨"a", ⟨0⟩⟩, ⟨"c", ⟨5⟩⟩] := by
    rw [hLoaded]
    decide
  obtain ⟨hRoot, hEmbodies⟩ :=
    (injections_follow_loading_order mixedForms hSeparate).1 _ _ _ hLoaded
  refine ⟨hLoaded, hSeparate, hRoot, ?_⟩
  rw [← hAsked]
  exact hEmbodies

/-- The injection of the grammar itself comes first. -/
example : ((load mixedForms).2.build.rule? ⟨2⟩).map Rule.injections =
    some [⟨"own", ⟨4⟩⟩, ⟨"a", ⟨0⟩⟩, ⟨"a", ⟨0⟩⟩, ⟨"c", ⟨5⟩⟩] := by
  decide +kernel

end Builder

end GrammarSearch
