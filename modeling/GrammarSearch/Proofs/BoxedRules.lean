import GrammarSearch.Proofs.ClosedTrees
import GrammarSearch.Proofs.CompiledRules
import Mathlib.Data.List.Forall2

/-!
# A rule in a box

A container put around a rule takes a place of its own, and whatever is compiled after it has the
next place.  A `Boxing` says which place the box takes and which rule is in it, and `Boxing.move`
where rules go.  Compiling is the same before and after (`Boxing.inStep_compile`): it asks for
places one further on, and writes rules whose children have moved.

The rule in the box may have lost its own patterns on the way (`Boxing.Bare`).  No other rule lists
it, so among the rules that refer to each other (`Boxing.Moves`) nobody sees a difference.
-/

namespace GrammarSearch

/-- A rule without its own patterns. An include has none that count. -/
def RuleSource.plain (source : RuleSource) : RuleSource :=
  { source with matchPattern := none, beginPattern := none, endPattern := none }

/-- A plain container around a rule. -/
def RuleSource.boxed (source : RuleSource) : RuleSource :=
  { patterns := [source] }

theorem Scoping.resolve?_within_nil (scoping : Scoping) (target : String) :
    (scoping.within []).resolve? target = scoping.resolve? target := by
  rcases Scoping.resolve?_within_cases target with ⟨name, hWithin⟩ | hWithin
  · rw [hWithin]
    rfl
  · exact hWithin scoping []

/-! ## Runs of compilations -/

namespace Builder

theorem reserved_zero (builder : Builder) : builder.reserved 0 = builder := by
  simp [reserved]

/-- Every rule of the builder refers to rules that are there. -/
def RefersInside (builder : Builder) : Prop :=
  ∀ (index : Nat) (rule : Rule), builder.rules[index]? = some rule →
    rule.RefersBelow builder.rules.size

end Builder

namespace Compilation

/-- Two runs of compilations go through, and their results and the builders that they leave are
related, or both fail in the same way. -/
inductive Alike {α β : Type} (related : α → Builder → β → Builder → Prop) :
    Except Failure α × Builder → Except Failure β × Builder → Prop
  | ok {value : α} {after : Builder} {other : β} {newAfter : Builder}
      (h : related value after other newAfter) :
      Alike related (.ok value, after) (.ok other, newAfter)
  | error (failure : Failure) (after newAfter : Builder) :
      Alike related (.error failure, after) (.error failure, newAfter)

variable {α β γ δ : Type} {related : α → Builder → β → Builder → Prop}
variable {scoping : Scoping} {source : RuleSource}

theorem Alike.with_runs {run : Except Failure α × Builder} {newRun : Except Failure β × Builder}
    (h : Alike related run newRun) :
    Alike (fun value after other newAfter => related value after other newAfter ∧
      run = (.ok value, after) ∧ newRun = (.ok other, newAfter)) run newRun := by
  cases h with
  | ok hRelated => exact .ok ⟨hRelated, rfl, rfl⟩
  | error failure after newAfter => exact .error failure after newAfter

/-- One compilation from one builder. -/
theorem Alike.same (run : Except Failure α × Builder) :
    Alike (fun value after other newAfter =>
      run = (.ok value, after) ∧ other = value ∧ newAfter = after) run run := by
  rcases run with ⟨failure | value, after⟩
  · exact .error failure after after
  · exact .ok ⟨rfl, rfl, rfl⟩

theorem Alike.bind {left : Compilation α} {right : Compilation β}
    {further : γ → Builder → δ → Builder → Prop} {before other : Builder}
    (h : Alike related (left.run.run before) (right.run.run other)) {next : α → Compilation γ}
    {newNext : β → Compilation δ}
    (hNext : ∀ value after newValue newAfter, related value after newValue newAfter →
      Alike further ((next value).run.run after) ((newNext newValue).run.run newAfter)) :
    Alike further ((left >>= next).run.run before) ((right >>= newNext).run.run other) := by
  rw [run_bind, run_bind]
  rcases hLeft : left.run.run before with ⟨result, after⟩
  rcases hRight : right.run.run other with ⟨newResult, newAfter⟩
  rw [hLeft, hRight] at h
  cases h with
  | ok hRelated => exact hNext _ _ _ _ hRelated
  | error failure => exact .error failure after newAfter

/-- A boxed rule is compiled behind the place of its box, which is written last. -/
theorem run_compileRules_boxed (scoping : Scoping) (source : RuleSource) (before : Builder) :
    (compileRules scoping [source.boxed]).run.run before =
      (compileRules (scoping.within []) [source] >>= fun children =>
        write ⟨before.rules.size⟩ { children := children } >>= fun _ =>
          pure [⟨before.rules.size⟩]).run.run (before.reserved 1) := by
  have hOwn : source.boxed.includes = none := rfl
  have hInto (index : Nat) : compileInto scoping ⟨index⟩ source.boxed = (do
      let first ← reserve 0
      compileEntries (scoping.within []) first []
      let children ← compileRules (scoping.within []) [source]
      write ⟨index⟩ { children := children }) := compileInto_of_none hOwn
  rw [compileRules, hOwn, compileRules]
  simp only [hInto, compileEntries, bind_assoc, pure_bind, run_reserve_bind,
    Builder.reserved_zero]

theorem compileRules_append (scoping : Scoping) (sources others : List RuleSource) :
    compileRules scoping (sources ++ others) = (do
      let nodes ← compileRules scoping sources
      let more ← compileRules scoping others
      pure (nodes ++ more)) := by
  induction sources with
  | nil => simp [compileRules]
  | cons source sources ih =>
    rw [List.cons_append, compileRules, compileRules, ih]
    cases source.includes with
    | some target => simp only [bind_assoc, pure_bind, List.cons_append]
    | none => simp only [bind_assoc, pure_bind, List.cons_append]

theorem compileRules_around (scoping : Scoping) (first : List RuleSource) (source : RuleSource)
    (last : List RuleSource) :
    compileRules scoping (first ++ source :: last) = (do
      let nodes ← compileRules scoping first
      let found ← compileRules scoping [source]
      let more ← compileRules scoping last
      pure (nodes ++ (found ++ more))) := by
  rw [← List.singleton_append, compileRules_append, compileRules_append scoping [source]]
  simp only [bind_assoc, pure_bind]

theorem run_compileRules_of_include {target : String} (hInclude : source.includes = some target)
    (before : Builder) :
    (compileRules scoping [source]).run.run before =
      ((scoping.resolve target).map fun node => [node], before) := by
  rw [compileRules, hInclude, compileRules]
  dsimp only
  cases scoping.resolve target <;> rfl

theorem compileRules_of_none (hOwn : source.includes = none) :
    compileRules scoping [source] = (do
      let index ← reserve 1
      compileInto scoping ⟨index⟩ source
      pure [⟨index⟩]) := by
  rw [compileRules, hOwn, compileRules]
  simp only [pure_bind]

end Compilation

/-- A container around a rule: the place that it takes, and the rule. -/
structure Boxing where
  place : Nat
  inner : NodeId

namespace Boxing

open Compilation

variable (boxing : Boxing)

/-- The handle of the box. -/
def box : NodeId := ⟨boxing.place⟩

/-- Rules from the place of the box on move by one place. -/
def move (node : NodeId) : NodeId :=
  if node.index < boxing.place then node else ⟨node.index + 1⟩

/-- The rule is the one in the box and made room for it, so that no other rule lists it. -/
def Bare (node : NodeId) : Prop :=
  node = boxing.inner ∧ boxing.inner.index = boxing.place

/-- A handle that rules refer to, and where its rule goes. -/
def Moves (node other : NodeId) : Prop :=
  other = boxing.move node ∧ ¬ boxing.Bare node

/-- What is injected has moved, or it is the box in place of the rule in it. -/
def MovesTarget (target other : NodeId) : Prop :=
  boxing.Moves target other ∨ target = boxing.inner ∧ other = boxing.box

/-- An injection whose target has moved. -/
def MovesInjection (injection other : Injection) : Prop :=
  other.selector = injection.selector ∧ boxing.MovesTarget injection.target other.target

/-- A rule that refers to rules that have moved. The one in the box may have lost its patterns. -/
structure MovesRule (node : NodeId) (rule other : Rule) : Prop where
  children : List.Forall₂ boxing.Moves rule.children other.children
  injections : List.Forall₂ boxing.MovesInjection rule.injections other.injections
  name_eq : other.name = rule.name
  kind_eq : ¬ boxing.Bare node → other.kind = rule.kind
  hasBegin_eq : ¬ boxing.Bare node → other.hasBegin = rule.hasBegin
  kind_of_bare : boxing.Bare node → other.kind = .group

/-- Places from this one on are behind the box and hold none of the rules that were there. -/
def Behind (first : Nat) : Prop :=
  boxing.place ≤ first ∧ boxing.inner.index < first

/-- All rules have moved. -/
structure MovesRules (rules others : Array Rule) : Prop where
  size_eq : others.size = rules.size + 1
  behind : boxing.Behind rules.size
  moved : ∀ node : NodeId,
    Option.Rel (boxing.MovesRule node) rules[node.index]? others[(boxing.move node).index]?

variable {boxing}

/-! ## Handles -/

theorem move_of_lt {node : NodeId} (h : node.index < boxing.place) : boxing.move node = node :=
  if_pos h

theorem move_of_le {node : NodeId} (h : boxing.place ≤ node.index) :
    boxing.move node = ⟨node.index + 1⟩ :=
  if_neg (Nat.not_lt.2 h)

theorem index_move (node : NodeId) :
    (boxing.move node).index =
      if node.index < boxing.place then node.index else node.index + 1 := by
  rw [move]
  split
  · rfl
  · rfl

theorem move_injective : Function.Injective boxing.move := by
  intro first second hSame
  have hIndex := congrArg NodeId.index hSame
  rw [index_move, index_move] at hIndex
  have hBack : first.index = second.index := by
    split at hIndex
    · split at hIndex <;> omega
    · split at hIndex <;> omega
  exact congrArg NodeId.mk hBack

/-- Nothing moves to the place of the box. -/
theorem move_ne_box (node : NodeId) : boxing.move node ≠ boxing.box := by
  intro hSame
  have hIndex : (boxing.move node).index = boxing.place := congrArg NodeId.index hSame
  rw [index_move] at hIndex
  split at hIndex <;> omega

theorem Behind.mono {first next : Nat} (h : boxing.Behind first) (hNext : first ≤ next) :
    boxing.Behind next :=
  ⟨Nat.le_trans h.1 hNext, Nat.lt_of_lt_of_le h.2 hNext⟩

theorem Behind.not_bare {first : Nat} (h : boxing.Behind first) {node : NodeId}
    (hNode : first ≤ node.index) : ¬ boxing.Bare node := by
  rintro ⟨rfl, -⟩
  exact Nat.not_lt.2 hNode h.2

theorem Behind.moves {first : Nat} (h : boxing.Behind first) : boxing.Moves ⟨first⟩ ⟨first + 1⟩ :=
  ⟨(move_of_le h.1).symm, h.not_bare (Nat.le_refl first)⟩

/-- Rules in front of the box stay where they are. -/
theorem moves_of_lt {node : NodeId} (h : node.index < boxing.place) : boxing.Moves node node := by
  refine ⟨(move_of_lt h).symm, ?_⟩
  rintro ⟨rfl, hPlace⟩
  exact Nat.ne_of_lt h hPlace

/-! ## Arrays of rules -/

theorem movesRule_empty (node : NodeId) :
    boxing.MovesRule node ({} : Rule) ({} : Rule) where
  children := .nil
  injections := .nil
  name_eq := rfl
  kind_eq _ := rfl
  hasBegin_eq _ := rfl
  kind_of_bare _ := rfl

variable {rules others : Array Rule}

theorem MovesRules.move_lt_iff (h : boxing.MovesRules rules others) (node : NodeId) :
    (boxing.move node).index < others.size ↔ node.index < rules.size := by
  have hPlace := h.behind.1
  rw [h.size_eq, move]
  split
  · omega
  · exact Nat.succ_lt_succ_iff

theorem MovesRules.place_lt (h : boxing.MovesRules rules others) :
    boxing.place < others.size := by
  rw [h.size_eq]
  exact Nat.lt_succ_of_le h.behind.1

theorem MovesRules.reserve (h : boxing.MovesRules rules others) (count : Nat) :
    boxing.MovesRules (rules ++ Array.replicate count ({} : Rule))
      (others ++ Array.replicate count ({} : Rule)) where
  size_eq := by
    simp only [Array.size_append, Array.size_replicate, h.size_eq]
    omega
  behind := h.behind.mono (by simp)
  moved node := by
    by_cases hOld : node.index < rules.size
    · rw [Array.getElem?_append_left hOld,
        Array.getElem?_append_left ((h.move_lt_iff node).2 hOld)]
      exact h.moved node
    · have hBehind : boxing.move node = ⟨node.index + 1⟩ :=
        move_of_le (Nat.le_trans h.behind.1 (Nat.not_lt.1 hOld))
      have hNew : others.size ≤ node.index + 1 := by
        rw [h.size_eq]
        omega
      rw [hBehind, Array.getElem?_append_right (Nat.not_lt.1 hOld),
        Array.getElem?_append_right hNew, h.size_eq, Nat.add_sub_add_right,
        Array.getElem?_replicate]
      split
      · exact .some (movesRule_empty node)
      · exact .none

theorem MovesRules.write (h : boxing.MovesRules rules others) {node : NodeId} {rule other : Rule}
    (hRule : boxing.MovesRule node rule other) :
    boxing.MovesRules (rules.setIfInBounds node.index rule)
      (others.setIfInBounds (boxing.move node).index other) where
  size_eq := by simpa using h.size_eq
  behind := by simpa using h.behind
  moved next := by
    rw [Array.getElem?_setIfInBounds, Array.getElem?_setIfInBounds]
    by_cases hSame : node = next
    · subst hSame
      rw [if_pos rfl, if_pos rfl]
      by_cases hInside : node.index < rules.size
      · rw [if_pos hInside, if_pos ((h.move_lt_iff node).2 hInside)]
        exact .some hRule
      · rw [if_neg hInside, if_neg fun hThere => hInside ((h.move_lt_iff node).1 hThere)]
        exact .none
    · have hIndex : node.index ≠ next.index := fun h => hSame (congrArg NodeId.mk h)
      have hNewIndex : (boxing.move node).index ≠ (boxing.move next).index :=
        fun h => hSame (move_injective (congrArg NodeId.mk h))
      rw [if_neg hIndex, if_neg hNewIndex]
      exact h.moved next

/-- What stands at the place of the box does not count. -/
theorem MovesRules.writeBox (h : boxing.MovesRules rules others) (other : Rule) :
    boxing.MovesRules rules (others.setIfInBounds boxing.place other) where
  size_eq := by simpa using h.size_eq
  behind := h.behind
  moved node := by
    have hOther : boxing.place ≠ (boxing.move node).index :=
      fun h => move_ne_box node (congrArg NodeId.mk h.symm)
    rw [Array.getElem?_setIfInBounds_ne hOther]
    exact h.moved node

/-! ## Compiling in step -/

/-- Started where all rules have moved, two compilations give results that are related, and again
all rules have moved. -/
def InStep {α β : Type} (boxing : Boxing) (related : α → β → Prop) (left : Compilation α)
    (right : Compilation β) : Prop :=
  ∀ before other : Builder, boxing.MovesRules before.rules other.rules →
    Alike (fun value after other newAfter =>
      related value other ∧ boxing.MovesRules after.rules newAfter.rules)
      (left.run.run before) (right.run.run other)

/-- What includes refer to has moved. -/
def MovesScoping (boxing : Boxing) (scoping other : Scoping) : Prop :=
  ∀ target, Option.Rel boxing.Moves (scoping.resolve? target) (other.resolve? target)

/-- Compilations that give nothing. -/
abbrev Done (_ _ : Unit) : Prop := True

section

variable {α β γ δ : Type} {related : α → β → Prop} {later : γ → δ → Prop}
variable {left : Compilation α} {right : Compilation β}

theorem inStep_pure {value : α} {other : β} (h : related value other) :
    boxing.InStep related (pure value) (pure other) :=
  fun _ _ hMoves => .ok ⟨h, hMoves⟩

theorem inStep_bind (h : boxing.InStep related left right) {next : α → Compilation γ}
    {newNext : β → Compilation δ}
    (hNext : ∀ value other, related value other →
      boxing.InStep later (next value) (newNext other)) :
    boxing.InStep later (left >>= next) (right >>= newNext) :=
  fun before other hMoves => (h before other hMoves).bind fun value after newValue newAfter hBoth =>
    hNext value newValue hBoth.1 after newAfter hBoth.2

/-- Places are taken one further on. -/
theorem inStep_reserve_bind {count : Nat} {next : Nat → Compilation γ}
    {newNext : Nat → Compilation δ}
    (hNext : ∀ first, boxing.Behind first →
      boxing.InStep later (next first) (newNext (first + 1))) :
    boxing.InStep later (reserve count >>= next) (reserve count >>= newNext) := by
  intro before other hMoves
  rw [run_reserve_bind, run_reserve_bind, hMoves.size_eq]
  exact hNext _ hMoves.behind _ _ (hMoves.reserve count)

theorem inStep_write {node : NodeId} {rule other : Rule}
    (hRule : boxing.MovesRule node rule other) :
    boxing.InStep Done (Compilation.write node rule) (Compilation.write (boxing.move node) other) :=
  fun _ _ hMoves => .ok ⟨trivial, hMoves.write hRule⟩

variable {scoping newScoping : Scoping}

theorem inStep_resolve (h : boxing.MovesScoping scoping newScoping) (target : String) :
    boxing.InStep boxing.Moves (ofExcept (scoping.resolve target))
      (ofExcept (newScoping.resolve target)) := by
  intro before other hMoves
  have hFound := h target
  rw [Scoping.resolve, Scoping.resolve]
  cases hNode : scoping.resolve? target with
  | none =>
    rw [hNode] at hFound
    generalize newScoping.resolve? target = found at hFound
    cases hFound
    exact .error _ before other
  | some node =>
    rw [hNode] at hFound
    generalize newScoping.resolve? target = found at hFound
    cases hFound with
    | some hNodes => exact .ok ⟨hNodes, hMoves⟩

theorem rel_or {α β : Type} {related : α → β → Prop} {first second : Option α}
    {other next : Option β} (h : Option.Rel related first other)
    (hNext : Option.Rel related second next) :
    Option.Rel related (first.or second) (other.or next) := by
  cases h with
  | some hBoth => exact .some hBoth
  | none => exact hNext

/-- Entries get places one further on. -/
theorem lookup_entryHandles {first : Nat} (h : boxing.Behind first) (entries : Table RuleSource)
    (name : String) :
    Option.Rel boxing.Moves ((entryHandles first entries).lookup name)
      ((entryHandles (first + 1) entries).lookup name) := by
  induction entries generalizing first with
  | nil => exact .none
  | cons entry entries ih =>
    rw [entryHandles, entryHandles, List.lookup_cons, List.lookup_cons]
    split
    · exact .some h.moves
    · exact ih (h.mono (Nat.le_succ first))

theorem MovesScoping.within (h : boxing.MovesScoping scoping newScoping) {first : Nat}
    (hBehind : boxing.Behind first) (entries : Table RuleSource) :
    boxing.MovesScoping (scoping.within (entryHandles first entries))
      (newScoping.within (entryHandles (first + 1) entries)) := by
  intro target
  rcases Scoping.resolve?_within_cases target with ⟨name, hWithin⟩ | hWithin
  · rw [hWithin, hWithin]
    exact rel_or (lookup_entryHandles hBehind entries name) (h target)
  · rw [hWithin, hWithin]
    exact h target

/-- A rule as written, over children that have moved. -/
theorem movesRule_ruleOf {node : NodeId} (hNode : ¬ boxing.Bare node) (source : RuleSource)
    {children others : List NodeId} (hChildren : List.Forall₂ boxing.Moves children others) :
    boxing.MovesRule node (ruleOf source children) (ruleOf source others) where
  children := hChildren
  injections := .nil
  name_eq := rfl
  kind_eq _ := rfl
  hasBegin_eq _ := rfl
  kind_of_bare hBare := absurd hBare hNode

/-- Compiling goes in step: by induction over a rule and the rules in its lists. -/
theorem inStep_compile :
    (∀ scoping node source, ∀ {newScoping newNode}, boxing.MovesScoping scoping newScoping →
      boxing.Moves node newNode →
      boxing.InStep Done (compileInto scoping node source)
        (compileInto newScoping newNode source)) ∧
    (∀ scoping sources, ∀ {newScoping}, boxing.MovesScoping scoping newScoping →
      boxing.InStep (List.Forall₂ boxing.Moves) (compileRules scoping sources)
        (compileRules newScoping sources)) ∧
    (∀ scoping next entries, ∀ {newScoping}, boxing.MovesScoping scoping newScoping →
      boxing.Behind next →
      boxing.InStep Done (compileEntries scoping next entries)
        (compileEntries newScoping (next + 1) entries)) := by
  refine compileInto.mutual_induct _ _ _ ?including ?own ?noRule ?included ?rule ?noEntry ?entry
  case including =>
    intro scoping node _ _ _ _ _ _ _ _ _ _ target newScoping newNode hScoping hNode
    obtain ⟨rfl, hOther⟩ := hNode
    rw [compileInto, compileInto]
    refine inStep_bind (inStep_resolve hScoping target) fun child other hChild => ?_
    exact inStep_write (movesRule_ruleOf hOther {} (.cons hChild .nil))
  case own =>
    intro scoping node _ _ _ _ _ _ _ _ patterns repository hEntries hPatterns newScoping newNode
      hScoping hNode
    obtain ⟨rfl, hOther⟩ := hNode
    rw [compileInto, compileInto]
    refine inStep_reserve_bind fun first hBehind => ?_
    have hInside := hScoping.within hBehind repository
    refine inStep_bind (hEntries first hInside hBehind) fun _ _ _ => ?_
    refine inStep_bind (hPatterns first hInside) fun children others hChildren => ?_
    exact inStep_write (movesRule_ruleOf hOther _ hChildren)
  case noRule =>
    intro scoping newScoping hScoping
    rw [compileRules, compileRules]
    exact inStep_pure .nil
  case included =>
    intro scoping source sources target hInclude hSources newScoping hScoping
    rw [compileRules, compileRules, hInclude]
    refine inStep_bind (inStep_resolve hScoping target) fun node other hNode => ?_
    refine inStep_bind (hSources hScoping) fun nodes others hNodes => ?_
    exact inStep_pure (.cons hNode hNodes)
  case rule =>
    intro scoping source sources hOwn hSources hSource newScoping hScoping
    rw [compileRules, compileRules, hOwn]
    simp only [pure_bind]
    refine inStep_reserve_bind fun first hBehind => ?_
    refine inStep_bind (hSource first hScoping hBehind.moves) fun _ _ _ => ?_
    refine inStep_bind (hSources hScoping) fun nodes others hNodes => ?_
    exact inStep_pure (.cons hBehind.moves hNodes)
  case noEntry =>
    intro scoping next newScoping hScoping hBehind
    rw [compileEntries, compileEntries]
    exact inStep_pure trivial
  case entry =>
    intro scoping next name source entries hSource hEntries newScoping hScoping hBehind
    rw [compileEntries, compileEntries]
    refine inStep_bind (hSource hScoping hBehind.moves) fun _ _ _ => ?_
    exact hEntries hScoping (hBehind.mono (Nat.le_succ next))

/-! ## The rule in the box -/

/-- What is in front of the box stays where it is, also for a rule in a box. -/
theorem movesScoping_of_below (h : scoping.Below boxing.place) (newScoping : Scoping)
    (hSame : ∀ target, newScoping.resolve? target = scoping.resolve? target) :
    boxing.MovesScoping scoping newScoping := by
  intro target
  rw [hSame]
  cases hFound : scoping.resolve? target with
  | none => exact .none
  | some node => exact .some (moves_of_lt (h target node hFound))

/-- The rule in the box is compiled as the one it was, but for its own patterns. -/
theorem inStep_plain {source : RuleSource} (hOwn : source.includes = none) {node : NodeId}
    (hBare : boxing.Bare node) (h : boxing.MovesScoping scoping newScoping) :
    boxing.InStep Done (compileInto scoping node source)
      (compileInto newScoping (boxing.move node) source.plain) := by
  have hPlain : source.plain.includes = none := hOwn
  obtain ⟨-, hPatterns, hEntries⟩ := @inStep_compile boxing
  rw [compileInto_of_none hOwn, compileInto_of_none hPlain]
  refine inStep_reserve_bind fun first hBehind => ?_
  have hInside := h.within hBehind source.repository
  refine inStep_bind (hEntries _ _ _ hInside hBehind) fun _ _ _ => ?_
  refine inStep_bind (hPatterns _ _ hInside) fun children others hChildren => ?_
  exact inStep_write
    ⟨hChildren, .nil, rfl, fun h => absurd hBare h, fun h => absurd hBare h, fun _ => rfl⟩

/-- Rules that refer to rules in front of the box only are as they were. -/
theorem movesRule_of_refersBelow {node : NodeId} (hNode : node.index < boxing.place) {rule : Rule}
    (h : rule.RefersBelow boxing.place) : boxing.MovesRule node rule rule where
  children := List.forall₂_same.2 fun child hMem => moves_of_lt (h.child_lt child hMem)
  injections := List.forall₂_same.2 fun injection hMem =>
    ⟨rfl, .inl (moves_of_lt (h.target_lt injection hMem))⟩
  name_eq := rfl
  kind_eq _ := rfl
  hasBegin_eq _ := rfl
  kind_of_bare hBare := by
    rw [hBare.1, hBare.2] at hNode
    exact absurd hNode (Nat.lt_irrefl _)

/-- When the place of the box has been taken, and perhaps more behind it, all rules have moved. -/
theorem movesRules_start {before : Builder} {inner : NodeId} (count : Nat)
    (hInner : inner.index < before.rules.size + count) (hRefers : before.RefersInside) :
    (Boxing.mk before.rules.size inner).MovesRules (before.reserved count).rules
      ((before.reserved 1).reserved count).rules where
  size_eq := by
    simp only [Builder.size_reserved]
    omega
  behind := by
    rw [Builder.size_reserved]
    exact ⟨Nat.le_add_right _ _, hInner⟩
  moved node := by
    simp only [Builder.reserved]
    by_cases hOld : node.index < before.rules.size
    · rw [move_of_lt hOld, Array.getElem?_append_left hOld, Array.append_assoc,
        Array.getElem?_append_left hOld]
      cases hRule : before.rules[node.index]? with
      | none => exact .none
      | some rule => exact .some (movesRule_of_refersBelow hOld (hRefers _ rule hRule))
    · have hBehind : before.rules.size ≤ node.index := Nat.not_lt.1 hOld
      have hNew : (before.rules ++ Array.replicate 1 ({} : Rule)).size ≤ node.index + 1 := by
        simpa using hBehind
      rw [move_of_le hBehind, Array.getElem?_append_right hBehind,
        Array.getElem?_append_right hNew, Array.getElem?_replicate, Array.getElem?_replicate]
      simp only [Array.size_append, Array.size_replicate, Nat.add_sub_add_right]
      split
      · exact .some (movesRule_empty node)
      · exact .none

/-- The rule in the box is the one that was written, or the one that its include refers to. -/
def IsContent (boxing : Boxing) (scoping : Scoping) (source : RuleSource) : Prop :=
  boxing.Bare boxing.inner ∨
    ∃ target, source.includes = some target ∧ scoping.resolve? target = some boxing.inner

/-- A rule, and the same rule behind the place of its box: all rules have moved. -/
theorem alike_compileRules_plain {before : Builder} (hBelow : scoping.Below before.rules.size)
    (hRefers : before.RefersInside) (source : RuleSource) :
    Alike (fun nodes after others newAfter => ∃ boxing : Boxing,
        boxing.place = before.rules.size ∧ nodes = [boxing.inner] ∧
          others = [boxing.move boxing.inner] ∧ boxing.MovesRules after.rules newAfter.rules ∧
          boxing.IsContent scoping source)
      ((compileRules scoping [source]).run.run before)
      ((compileRules (scoping.within []) [source.plain]).run.run (before.reserved 1)) := by
  cases hInclude : source.includes with
  | some target =>
    have hPlain : source.plain.includes = some target := hInclude
    rw [run_compileRules_of_include hInclude, run_compileRules_of_include hPlain,
      Scoping.resolve, Scoping.resolve, Scoping.resolve?_within_nil]
    cases hFound : scoping.resolve? target with
    | none => exact .error _ _ _
    | some node =>
      have hNode := hBelow target node hFound
      have hMoves := movesRules_start 0 hNode hRefers
      rw [Builder.reserved_zero, Builder.reserved_zero] at hMoves
      refine .ok ⟨⟨before.rules.size, node⟩, rfl, rfl, ?_, hMoves, .inr ⟨target, hInclude, hFound⟩⟩
      rw [move_of_lt hNode]
  | none =>
    have hPlain : source.plain.includes = none := hInclude
    have hBare : (Boxing.mk before.rules.size ⟨before.rules.size⟩).Bare ⟨before.rules.size⟩ :=
      ⟨rfl, rfl⟩
    have hScoping : (Boxing.mk before.rules.size ⟨before.rules.size⟩).MovesScoping scoping
        (scoping.within []) :=
      movesScoping_of_below hBelow _ scoping.resolve?_within_nil
    have hMoves := @movesRules_start before ⟨before.rules.size⟩ 1 (Nat.lt_succ_self _) hRefers
    have hAlike := inStep_plain hInclude hBare hScoping _ _ hMoves
    rw [move_of_le (Nat.le_refl _)] at hAlike
    rw [compileRules_of_none hInclude, compileRules_of_none hPlain, run_reserve_bind,
      run_reserve_bind, Builder.size_reserved]
    refine hAlike.bind fun _ after _ newAfter hAfter => .ok ?_
    refine ⟨⟨before.rules.size, ⟨before.rules.size⟩⟩, rfl, rfl, ?_, hAfter.2, .inl hBare⟩
    rw [move_of_le (Nat.le_refl _)]

end

end Boxing

end GrammarSearch
