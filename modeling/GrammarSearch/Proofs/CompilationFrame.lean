import GrammarSearch.Grammar.Compilation

/-!
# What compiling leaves alone

Compiling takes places behind the rules of a builder and writes to them later, an entry of a
repository before the rules inside it and the root of the grammar last.  A compilation is *confined*
to some places if, whatever it answers, it changes no other rule that was there before, and neither
the roots, the repositories nor the waiting injections.

A place that a compilation takes for itself counts for nothing outside it
(`Confined.reserve_bind`).  So a rule is confined to the place taken for it, the entries of a
repository are confined to theirs, and a whole grammar is confined to no place at all
(`confined_compileRoot`), even if it stops at an include in the middle.
-/

namespace GrammarSearch

/-- The later of two builders has all the rules of the earlier one, changed at most in some places,
and is the same in all else. -/
structure Builder.Extends (before : Builder) (touched : Nat → Prop) (after : Builder) : Prop where
  roots_eq : after.roots = before.roots
  repositories_eq : after.repositories = before.repositories
  pending_eq : after.pending = before.pending
  size_le : before.rules.size ≤ after.rules.size
  kept : ∀ index < before.rules.size, ¬ touched index → after.rules[index]? = before.rules[index]?

/-- A builder with some more places taken. -/
def Builder.reserved (builder : Builder) (count : Nat) : Builder :=
  { builder with rules := builder.rules ++ Array.replicate count ({} : Rule) }

@[simp] theorem Builder.size_reserved (builder : Builder) (count : Nat) :
    (builder.reserved count).rules.size = builder.rules.size + count := by
  simp [Builder.reserved]

namespace Builder.Extends

variable {touched inner : Nat → Prop} {before between after : Builder}

theorem refl (before : Builder) (touched : Nat → Prop) : before.Extends touched before where
  roots_eq := rfl
  repositories_eq := rfl
  pending_eq := rfl
  size_le := Nat.le_refl _
  kept := fun _ _ _ => rfl

/-- Changes in places that were not there at first do not count. -/
theorem trans (hFirst : before.Extends touched between) (hNext : between.Extends inner after)
    (hInner : ∀ index < before.rules.size, inner index → touched index) :
    before.Extends touched after where
  roots_eq := hNext.roots_eq.trans hFirst.roots_eq
  repositories_eq := hNext.repositories_eq.trans hFirst.repositories_eq
  pending_eq := hNext.pending_eq.trans hFirst.pending_eq
  size_le := Nat.le_trans hFirst.size_le hNext.size_le
  kept := by
    intro index hIndex hUntouched
    have hBetween : index < between.rules.size := Nat.lt_of_lt_of_le hIndex hFirst.size_le
    rw [hNext.kept index hBetween fun h => hUntouched (hInner index hIndex h)]
    exact hFirst.kept index hIndex hUntouched

/-- Taking places changes nothing that was there. -/
theorem reserved (before : Builder) (touched : Nat → Prop) (count : Nat) :
    before.Extends touched (before.reserved count) where
  roots_eq := rfl
  repositories_eq := rfl
  pending_eq := rfl
  size_le := by simp
  kept := fun _ hIndex _ => Array.getElem?_append_left hIndex

/-- If no place was touched, cutting the new rules off gives the earlier builder. -/
theorem truncate_eq (hExtends : before.Extends (fun _ => False) after) :
    after.truncate before.rules.size = before := by
  have hRules : after.rules.take before.rules.size = before.rules := by
    apply Array.ext_getElem?
    intro index
    have hSize : before.rules.size ≤ after.rules.size := hExtends.size_le
    rw [Array.take_eq_extract, Array.getElem?_extract, Nat.zero_add]
    by_cases hIndex : index < before.rules.size
    · rw [if_pos (by omega)]
      exact hExtends.kept index hIndex id
    · rw [if_neg (by omega), Array.getElem?_eq_none (Nat.not_lt.1 hIndex)]
  obtain ⟨hRoots, hRepositories, hPending, -, -⟩ := hExtends
  simp only [truncate, hRules, hRoots, hRepositories, hPending]

end Builder.Extends

namespace Compilation

/-- Whatever it answers, a compilation changes at most the rules in some places. -/
def Confined {α : Type} (touched : Nat → Prop) (compilation : Compilation α) : Prop :=
  ∀ before : Builder, before.Extends touched (compilation.run.run before).2

variable {α β : Type} {touched inner : Nat → Prop}

theorem Confined.of_run {compilation : Compilation α} (hConfined : Confined touched compilation)
    {before after : Builder} {result : Except Failure α}
    (hRun : compilation.run.run before = (result, after)) : before.Extends touched after := by
  have hExtends := hConfined before
  rwa [hRun] at hExtends

theorem Confined.mono {compilation : Compilation α} (hConfined : Confined inner compilation)
    (hInner : ∀ index, inner index → touched index) : Confined touched compilation :=
  fun before => (Builder.Extends.refl before touched).trans (hConfined before)
    fun index _ => hInner index

theorem confined_pure (value : α) : Confined touched (pure value : Compilation α) :=
  fun before => .refl before touched

theorem confined_ofExcept (result : Except Failure α) :
    Confined touched (ofExcept result : Compilation α) := by
  cases result with
  | ok value => exact confined_pure value
  | error failure => exact fun before => .refl before touched

/-- Taking places never fails. -/
theorem run_reserve_bind (count : Nat) (next : Nat → Compilation α) (before : Builder) :
    (reserve count >>= next).run.run before =
      (next before.rules.size).run.run (before.reserved count) :=
  rfl

/-- An include that goes through is one that was found, and changes nothing. -/
theorem found_of_run {scoping : Scoping} {target : String} {node : NodeId} {before after : Builder}
    (hRun : (ofExcept (scoping.resolve target) : Compilation NodeId).run.run before =
      (.ok node, after)) : after = before ∧ scoping.resolve? target = some node := by
  rw [Scoping.resolve] at hRun
  cases hFound : scoping.resolve? target with
  | none =>
    rw [hFound] at hRun
    cases hRun
  | some found =>
    rw [hFound] at hRun
    cases hRun
    exact ⟨rfl, rfl⟩

theorem run_bind (first : Compilation α) (next : α → Compilation β) (before : Builder) :
    (first >>= next).run.run before =
      match first.run.run before with
      | (.ok value, between) => (next value).run.run between
      | (.error failure, between) => (.error failure, between) := by
  rw [ExceptT.run_bind, StateT.run_bind]
  show (match first.run.run before with | (result, between) => _) = _
  rcases first.run.run before with ⟨failure | value, between⟩ <;> rfl

/-- What a compilation that begins with another one answers: either that one failed, and nothing
more was done, or the rest went on from where it ended. -/
theorem run_bind_cases {first : Compilation α} {next : α → Compilation β} {before after : Builder}
    {result : Except Failure β} (hRun : (first >>= next).run.run before = (result, after)) :
    (∃ failure, first.run.run before = (.error failure, after) ∧ result = .error failure) ∨
    (∃ value between, first.run.run before = (.ok value, between) ∧
      (next value).run.run between = (result, after)) := by
  rw [run_bind] at hRun
  rcases hFirst : first.run.run before with ⟨failure | value, between⟩
  · rw [hFirst] at hRun
    cases hRun
    exact .inl ⟨failure, rfl, rfl⟩
  · rw [hFirst] at hRun
    exact .inr ⟨value, between, rfl, hRun⟩

/-- A compilation that goes through went through at its first part. -/
theorem exists_of_run_bind {first : Compilation α} {next : α → Compilation β}
    {before after : Builder} {answer : β}
    (hRun : (first >>= next).run.run before = (.ok answer, after)) :
    ∃ value between, first.run.run before = (.ok value, between) ∧
      (next value).run.run between = (.ok answer, after) := by
  rcases run_bind_cases hRun with ⟨failure, -, hStops⟩ | hGoesOn
  · contradiction
  · exact hGoesOn

/-- A compilation that fails failed at its first part or after it. -/
theorem failed_of_run_bind {first : Compilation α} {next : α → Compilation β}
    {before after : Builder} {failure : Failure}
    (hRun : (first >>= next).run.run before = (.error failure, after)) :
    first.run.run before = (.error failure, after) ∨
    ∃ value between, first.run.run before = (.ok value, between) ∧
      (next value).run.run between = (.error failure, after) := by
  rcases run_bind_cases hRun with ⟨_, hStops, hFailure⟩ | hGoesOn
  · cases hFailure
    exact .inl hStops
  · exact .inr hGoesOn

/-- A compilation that fails at its first part does nothing more. -/
theorem Confined.bind {first : Compilation α} {next : α → Compilation β}
    (hFirst : Confined touched first) (hNext : ∀ value, Confined touched (next value)) :
    Confined touched (first >>= next) := by
  intro before
  rcases hRun : (first >>= next).run.run before with ⟨result, after⟩
  rcases run_bind_cases hRun with ⟨failure, hStops, -⟩ | ⟨value, between, hValue, hGoesOn⟩
  · exact hFirst.of_run hStops
  · exact (hFirst.of_run hValue).trans ((hNext value).of_run hGoesOn) fun _ _ h => h

/-- Places that are taken may be written to. -/
theorem Confined.reserve_bind {count : Nat} {next : Nat → Compilation α}
    (hNext : ∀ first, Confined (fun index => touched index ∨ first ≤ index) (next first)) :
    Confined touched (reserve count >>= next) := by
  intro before
  rw [run_reserve_bind]
  refine (Builder.Extends.reserved before touched count).trans (hNext before.rules.size _) ?_
  rintro index hIndex (hTouched | hNew)
  · exact hTouched
  · omega

theorem confined_write (node : NodeId) (rule : Rule) :
    Confined (· = node.index) (write node rule) := by
  intro before
  refine ⟨rfl, rfl, rfl, ?_, ?_⟩
  · show before.rules.size ≤ (before.rules.setIfInBounds node.index rule).size
    simp
  · intro index _ hOther
    show (before.rules.setIfInBounds node.index rule)[index]? = _
    exact Array.getElem?_setIfInBounds_ne fun h => hOther h.symm

/-- Rules are confined to the places taken for them, and need none outside if they take their own:
by induction over a rule and the rules in its lists. -/
theorem confined_compile :
    (∀ scoping node source, Confined (· = node.index) (compileInto scoping node source)) ∧
    (∀ scoping sources, Confined (fun _ => False) (compileRules scoping sources)) ∧
    (∀ scoping next entries, Confined (fun index => next ≤ index ∧ index < next + entries.length)
      (compileEntries scoping next entries)) := by
  refine compileInto.mutual_induct _ _ _ ?including ?own ?noRule ?included ?rule ?noEntry ?entry
  case including =>
    intro scoping node _ _ _ _ _ _ _ _ _ _ target
    rw [compileInto]
    exact (confined_ofExcept _).bind fun child => confined_write node _
  case own =>
    intro scoping node _ _ _ _ _ _ _ _ patterns repository hEntries hPatterns
    rw [compileInto]
    refine Confined.reserve_bind fun first => ?_
    refine ((hEntries first).mono fun index h => .inr h.1).bind fun _ => ?_
    refine ((hPatterns first).mono fun index h => h.elim).bind fun children => ?_
    exact (confined_write node _).mono fun index h => .inl h
  case noRule =>
    intro scoping
    rw [compileRules]
    exact confined_pure []
  case included =>
    intro scoping source sources target hInclude hSources
    rw [compileRules, hInclude]
    exact (confined_ofExcept _).bind fun node => hSources.bind fun nodes => confined_pure _
  case rule =>
    intro scoping source sources hNone hSources hSource
    rw [compileRules, hNone]
    refine Confined.reserve_bind fun index => ?_
    refine ((hSource index).mono fun other h => .inr (Nat.le_of_eq h.symm)).bind fun _ => ?_
    refine (confined_pure _).bind fun node => ?_
    exact (hSources.mono fun other h => h.elim).bind fun nodes => confined_pure _
  case noEntry =>
    intro scoping next
    rw [compileEntries]
    exact confined_pure ()
  case entry =>
    intro scoping next name source entries hSource hEntries
    rw [compileEntries]
    refine (hSource.mono fun index h => ?_).bind fun _ => hEntries.mono fun index h => ?_
    · have hIndex : index = next := h
      simp only [List.length_cons]
      omega
    · simp only [List.length_cons]
      omega

theorem confined_compileInto (scoping : Scoping) (node : NodeId) (source : RuleSource) :
    Confined (· = node.index) (compileInto scoping node source) :=
  confined_compile.1 scoping node source

theorem confined_compileRules (scoping : Scoping) (sources : List RuleSource) :
    Confined (fun _ => False) (compileRules scoping sources) :=
  confined_compile.2.1 scoping sources

theorem confined_compileEntries (scoping : Scoping) (next : Nat) (entries : Table RuleSource) :
    Confined (fun index => next ≤ index ∧ index < next + entries.length)
      (compileEntries scoping next entries) :=
  confined_compile.2.2 scoping next entries

theorem confined_compileInjections (scoping : Scoping) (sources : Table RuleSource) :
    Confined (fun _ => False) (compileInjections scoping sources) :=
  (confined_compileRules scoping _).bind fun _ => confined_pure _

end Compilation

namespace Builder

open Compilation

variable {scoping : Scoping} {source : GrammarSource} {before after : Builder} {rule : Rule}

/-- Compiling a grammar touches nothing that was there before. -/
theorem confined_compileRoot (scoping : Scoping) (source : GrammarSource) :
    Confined (fun _ => False) (compileRoot scoping source) := by
  rw [compileRoot]
  refine Confined.reserve_bind fun _ => ?_
  refine Confined.reserve_bind fun first => ?_
  have hEntries := confined_compileEntries scoping first source.repository
  refine (hEntries.mono fun index h => .inr h.1).bind fun _ => ?_
  have hPatterns := confined_compileRules scoping source.patterns
  refine (hPatterns.mono fun index h => h.elim).bind fun children => ?_
  have hInjections := confined_compileInjections scoping source.injections
  exact (hInjections.mono fun index h => h.elim).bind fun injections => confined_pure _

/-- A grammar that goes through: its repository, then its patterns, then its injections. -/
theorem parts_of_compileRoot
    (hRun : (compileRoot scoping source).run.run before = (.ok rule, after)) :
    ∃ withEntries withChildren children injections,
      (compileEntries scoping (before.rules.size + 1) source.repository).run.run
        ((before.reserved 1).reserved source.repository.length) = (.ok (), withEntries) ∧
      (compileRules scoping source.patterns).run.run withEntries = (.ok children, withChildren) ∧
      (compileInjections scoping source.injections).run.run withChildren =
        (.ok injections, after) ∧
      rule = { name := some source.scopeName, children, injections } := by
  rw [compileRoot, run_reserve_bind, run_reserve_bind, size_reserved] at hRun
  obtain ⟨_, withEntries, hEntries, hRun⟩ := exists_of_run_bind hRun
  obtain ⟨children, withChildren, hChildren, hRun⟩ := exists_of_run_bind hRun
  obtain ⟨injections, _, hInjections, hRule⟩ := exists_of_run_bind hRun
  cases hRule
  exact ⟨withEntries, withChildren, children, injections, hEntries, hChildren, hInjections, rfl⟩

/-- Behind the place of its root a compiled grammar has at least those of its entries. -/
theorem size_le_of_compileRoot
    (hRun : (compileRoot scoping source).run.run before = (.ok rule, after)) :
    before.rules.size + 1 + source.repository.length ≤ after.rules.size := by
  obtain ⟨withEntries, withChildren, children, injections, hEntries, hChildren, hInjections, -⟩ :=
    parts_of_compileRoot hRun
  have hFirst := ((confined_compileEntries scoping _ _).of_run hEntries).size_le
  have hSecond := ((confined_compileRules scoping _).of_run hChildren).size_le
  have hThird := ((confined_compileInjections scoping _).of_run hInjections).size_le
  simp only [size_reserved] at hFirst
  omega

end Builder

end GrammarSearch
