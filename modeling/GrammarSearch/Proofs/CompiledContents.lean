import GrammarSearch.Proofs.CompilationFrame

/-!
# What compiling writes

Whatever a rule is written from, compiling writes a rule without injections whose children are rules
that are there: each of them was there before, or has the place of an entry that is still to be
written, or was just compiled.  Places that are only taken hold an empty rule, so this is true at
every moment of a compilation (`Compilation.contained_of_run`).  Only the root of a grammar has
injections, and it is written when all the rest is there (`Builder.contained_of_compileRoot`).
-/

namespace GrammarSearch

/-- A rule that injects nothing and whose children have handles below a bound. -/
structure Rule.Contained (bound : Nat) (rule : Rule) : Prop where
  injections_eq : rule.injections = []
  child_lt : ∀ child ∈ rule.children, child.index < bound

theorem Rule.contained_empty (bound : Nat) : ({} : Rule).Contained bound :=
  ⟨rfl, fun _ hMem => absurd hMem List.not_mem_nil⟩

/-- From a place on, all rules of a builder inject nothing and have children that are there. -/
def Builder.ContainedFrom (builder : Builder) (start : Nat) : Prop :=
  ∀ index rule, start ≤ index → builder.rules[index]? = some rule →
    rule.Contained builder.rules.size

namespace Builder.ContainedFrom

variable {builder : Builder} {start : Nat}

theorem reserved (h : builder.ContainedFrom start) (count : Nat) :
    (builder.reserved count).ContainedFrom start := by
  intro index rule hIndex hRule
  have hPlaces : (builder.rules ++ Array.replicate count ({} : Rule))[index]? = some rule := hRule
  rw [Array.getElem?_append] at hPlaces
  split at hPlaces
  · obtain ⟨hInjections, hChildren⟩ := h index rule hIndex hPlaces
    refine ⟨hInjections, fun child hMem => ?_⟩
    have hChild := hChildren child hMem
    rw [Builder.size_reserved]
    omega
  · rw [Array.getElem?_replicate] at hPlaces
    split at hPlaces
    · cases hPlaces
      exact Rule.contained_empty _
    · contradiction

theorem write (h : builder.ContainedFrom start) {node : NodeId} {written : Rule}
    (hWritten : written.Contained builder.rules.size) :
    ((Compilation.write node written).run.run builder).2.ContainedFrom start := by
  intro index rule hIndex hRule
  have hPlaces : (builder.rules.setIfInBounds node.index written)[index]? = some rule := hRule
  have hSize : (builder.rules.setIfInBounds node.index written).size = builder.rules.size :=
    Array.size_setIfInBounds
  show rule.Contained (builder.rules.setIfInBounds node.index written).size
  rw [hSize]
  rw [Array.getElem?_setIfInBounds] at hPlaces
  split at hPlaces
  · split at hPlaces
    · cases hPlaces
      exact hWritten
    · contradiction
  · exact h index rule hIndex hPlaces

end Builder.ContainedFrom

namespace Scoping

/-- All that includes can refer to has handles below a bound. -/
def Below (bound : Nat) (scoping : Scoping) : Prop :=
  ∀ target node, scoping.resolve? target = some node → node.index < bound

theorem Below.mono {scoping : Scoping} {bound larger : Nat} (h : scoping.Below bound)
    (hLarger : bound ≤ larger) : scoping.Below larger :=
  fun target node hFound => Nat.lt_of_lt_of_le (h target node hFound) hLarger

/-- The repository of a rule matters for an include of a name alone, where it is asked first, and
for no other include. -/
theorem resolve?_within_cases (target : String) :
    (∃ name, ∀ (scoping : Scoping) (repository : Repository),
      (scoping.within repository).resolve? target =
        (repository.lookup name).or (scoping.resolve? target)) ∨
    ∀ (scoping : Scoping) (repository : Repository),
      (scoping.within repository).resolve? target = scoping.resolve? target := by
  by_cases hOwn : target = "$self" ∨ target = "$base"
  · refine .inr fun scoping repository => ?_
    simp only [resolve?, if_pos hOwn]
    rfl
  · rcases hSplit : splitScope? target.toList with _ | ⟨_ | ⟨letter, scope⟩, name⟩
    · refine .inr fun scoping repository => ?_
      simp only [resolve?, if_neg hOwn, hSplit]
      rfl
    · refine .inl ⟨String.ofList name, fun scoping repository => ?_⟩
      simp only [resolve?, if_neg hOwn, hSplit, within, localEntry?, List.cons_append,
        List.findSome?_cons]
      cases repository.lookup (String.ofList name) <;> rfl
    · refine .inr fun scoping repository => ?_
      simp only [resolve?, if_neg hOwn, hSplit]
      rfl

/-- Inside a rule, an include refers to an entry of that rule or to what it refers to outside. -/
theorem resolve?_within {scoping : Scoping} {repository : Repository} {target : String}
    {node : NodeId} (hFound : (scoping.within repository).resolve? target = some node) :
    (∃ name, (name, node) ∈ repository) ∨ scoping.resolve? target = some node := by
  rcases resolve?_within_cases target with ⟨name, hWithin⟩ | hWithin
  · rw [hWithin] at hFound
    rcases Option.or_eq_some_iff.1 hFound with hEntry | ⟨-, hOutside⟩
    · exact .inl ⟨name, Table.mem_of_lookup hEntry⟩
    · exact .inr hOutside
  · rw [hWithin] at hFound
    exact .inr hFound

end Scoping

namespace Compilation

theorem index_lt_of_mem_entryHandles {first : Nat} {entries : Table RuleSource} {name : String}
    {node : NodeId} (hMem : (name, node) ∈ entryHandles first entries) :
    first ≤ node.index ∧ node.index < first + entries.length := by
  induction entries generalizing first with
  | nil => exact absurd hMem List.not_mem_nil
  | cons entry entries ih =>
    rw [List.length_cons]
    rcases List.mem_cons.1 hMem with hSame | hRest
    · cases hSame
      show first ≤ first ∧ first < first + (entries.length + 1)
      omega
    · have hNext := ih hRest
      omega

/-- The places taken for a repository are there when what it is around is compiled. -/
theorem below_within {scoping : Scoping} {first : Nat} (h : scoping.Below first)
    (repository : Table RuleSource) :
    (scoping.within (entryHandles first repository)).Below (first + repository.length) := by
  intro target node hFound
  rcases Scoping.resolve?_within hFound with ⟨name, hEntry⟩ | hOutside
  · exact (index_lt_of_mem_entryHandles hEntry).2
  · exact Nat.lt_of_lt_of_le (h target node hOutside) (Nat.le_add_right _ _)

/-- Compiling that goes through writes rules that inject nothing and whose children are there: by
induction over a rule and the rules in its lists. -/
theorem contained_of_run :
    (∀ scoping node source, ∀ {start before after}, scoping.Below before.rules.size →
      before.ContainedFrom start →
      (compileInto scoping node source).run.run before = (.ok (), after) →
      after.ContainedFrom start) ∧
    (∀ scoping sources, ∀ {start before after nodes}, scoping.Below before.rules.size →
      before.ContainedFrom start →
      (compileRules scoping sources).run.run before = (.ok nodes, after) →
      after.ContainedFrom start ∧ ∀ node ∈ nodes, node.index < after.rules.size) ∧
    (∀ scoping next entries, ∀ {start before after}, scoping.Below before.rules.size →
      before.ContainedFrom start →
      (compileEntries scoping next entries).run.run before = (.ok (), after) →
      after.ContainedFrom start) := by
  refine compileInto.mutual_induct _ _ _ ?including ?own ?noRule ?included ?rule ?noEntry ?entry
  case including =>
    intro scoping node _ _ _ _ _ _ _ _ _ _ target start before after hBelow hBefore hRun
    rw [compileInto] at hRun
    obtain ⟨child, between, hChild, hWrite⟩ := exists_of_run_bind hRun
    obtain ⟨rfl, hFound⟩ := found_of_run hChild
    have hWritten : ({ children := [child] } : Rule).Contained between.rules.size :=
      ⟨rfl, fun other hMem => List.mem_singleton.1 hMem ▸ hBelow target child hFound⟩
    cases hWrite
    exact hBefore.write hWritten
  case own =>
    intro scoping node _ _ _ _ _ _ _ _ patterns repository hEntries hPatterns start before after
      hBelow hBefore hRun
    rw [compileInto, run_reserve_bind] at hRun
    obtain ⟨_, withEntries, hEntriesRun, hRun⟩ := exists_of_run_bind hRun
    obtain ⟨nodes, withChildren, hChildrenRun, hWrite⟩ := exists_of_run_bind hRun
    have hInside : (scoping.within (entryHandles before.rules.size repository)).Below
        (before.reserved repository.length).rules.size := by
      rw [Builder.size_reserved]
      exact below_within hBelow repository
    have hGrows := ((confined_compileEntries _ _ _).of_run hEntriesRun).size_le
    have hWithEntries := hEntries before.rules.size hInside (hBefore.reserved _) hEntriesRun
    obtain ⟨hWithChildren, hNodes⟩ := hPatterns before.rules.size (hInside.mono hGrows)
      hWithEntries hChildrenRun
    cases hWrite
    exact hWithChildren.write ⟨rfl, hNodes⟩
  case noRule =>
    intro scoping start before after nodes hBelow hBefore hRun
    rw [compileRules] at hRun
    cases hRun
    exact ⟨hBefore, fun node hMem => absurd hMem List.not_mem_nil⟩
  case included =>
    intro scoping source sources target hInclude hSources start before after nodes hBelow hBefore
      hRun
    rw [compileRules, hInclude] at hRun
    obtain ⟨node, between, hNode, hOthers⟩ := exists_of_run_bind hRun
    obtain ⟨rfl, hFound⟩ := found_of_run hNode
    obtain ⟨rest, _, hRest, hAnswer⟩ := exists_of_run_bind hOthers
    cases hAnswer
    obtain ⟨hAfter, hNodes⟩ := hSources hBelow hBefore hRest
    have hGrows := ((confined_compileRules _ _).of_run hRest).size_le
    exact ⟨hAfter, List.forall_mem_cons.2
      ⟨Nat.lt_of_lt_of_le (hBelow target node hFound) hGrows, hNodes⟩⟩
  case rule =>
    intro scoping source sources hOwn hSources hSource start before after nodes hBelow hBefore hRun
    rw [compileRules, hOwn] at hRun
    simp only [run_reserve_bind, pure_bind] at hRun
    obtain ⟨_, between, hInto, hRun⟩ := exists_of_run_bind hRun
    obtain ⟨rest, _, hRest, hAnswer⟩ := exists_of_run_bind hRun
    cases hAnswer
    have hFirstSize := ((confined_compileInto _ _ _).of_run hInto).size_le
    have hNextSize := ((confined_compileRules _ _).of_run hRest).size_le
    have hPlace := Builder.size_reserved before 1
    have hBetween := hSource before.rules.size (hBelow.mono (by omega)) (hBefore.reserved 1) hInto
    obtain ⟨hAfter, hNodes⟩ := hSources (hBelow.mono (by omega)) hBetween hRest
    refine ⟨hAfter, List.forall_mem_cons.2 ⟨?_, hNodes⟩⟩
    show before.rules.size < after.rules.size
    omega
  case noEntry =>
    intro scoping next start before after hBelow hBefore hRun
    rw [compileEntries] at hRun
    cases hRun
    exact hBefore
  case entry =>
    intro scoping next name source entries hSource hEntries start before after hBelow hBefore hRun
    rw [compileEntries] at hRun
    obtain ⟨_, between, hInto, hRest⟩ := exists_of_run_bind hRun
    have hGrows := ((confined_compileInto _ _ _).of_run hInto).size_le
    exact hEntries (hBelow.mono hGrows) (hSource hBelow hBefore hInto) hRest

end Compilation

namespace Builder

open Compilation

/-- All that a grammar writes behind its root injects nothing and has children that are there, and
so does the root itself, whose injections have targets that are there. -/
theorem contained_of_compileRoot {scoping : Scoping} {source : GrammarSource}
    {before after : Builder} {rule : Rule}
    (hBelow : scoping.Below (before.rules.size + 1 + source.repository.length))
    (hRun : (compileRoot scoping source).run.run before = (.ok rule, after)) :
    after.ContainedFrom before.rules.size ∧
      (∀ child ∈ rule.children, child.index < after.rules.size) ∧
      ∀ injection ∈ rule.injections, injection.target.index < after.rules.size := by
  obtain ⟨withEntries, withChildren, children, injections, hEntries, hChildren, hInjections, rfl⟩ :=
    parts_of_compileRoot hRun
  obtain ⟨targets, _, hTargets, hAnswer⟩ := exists_of_run_bind hInjections
  cases hAnswer
  have hFirstSize := ((confined_compileEntries _ _ _).of_run hEntries).size_le
  have hNextSize := ((confined_compileRules _ _).of_run hChildren).size_le
  have hLastSize := ((confined_compileRules _ _).of_run hTargets).size_le
  have hPlaces : ((before.reserved 1).reserved source.repository.length).rules.size =
      before.rules.size + 1 + source.repository.length := by
    rw [size_reserved, size_reserved]
  have hNothing : before.ContainedFrom before.rules.size := by
    intro index rule hIndex hRule
    have hOld := (Array.getElem?_eq_some_iff.1 hRule).1
    omega
  obtain ⟨-, hRulesRun, hEntriesRun⟩ := contained_of_run
  have hWithEntries := hEntriesRun _ _ _ (hBelow.mono (by omega))
    ((hNothing.reserved 1).reserved _) hEntries
  obtain ⟨hWithChildren, hNodes⟩ := hRulesRun _ _ (hBelow.mono (by omega)) hWithEntries hChildren
  obtain ⟨hAfter, hPlaced⟩ := hRulesRun _ _ (hBelow.mono (by omega)) hWithChildren hTargets
  refine ⟨hAfter, fun child hMem => Nat.lt_of_lt_of_le (hNodes child hMem) hLastSize, ?_⟩
  intro injection hMem
  rw [← List.map_uncurry_zip_eq_zipWith] at hMem
  obtain ⟨⟨entry, target⟩, hPair, rfl⟩ := List.mem_map.1 hMem
  exact hPlaced target (List.of_mem_zip hPair).2

end Builder

end GrammarSearch
