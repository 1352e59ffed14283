import GrammarSearch.Proofs.CompiledContents
import GrammarSearch.Proofs.CompiledRules

/-!
# Addresses of rules

A rule inside another one has an address: the steps that lead to it, each to an entry of a
repository or to a place in a list.  An address does not depend on the order in which the entries of
a repository are listed, but handles do: `RuleSource.addresses` lists the addresses in the order in
which compiling takes places for them, and a rule gets as many places as it has addresses inside it
(`Compilation.size_of_run`).

So where a rule is compiled, a numbering of addresses says where everything inside it stands.
`PlacedRule` says that a rule and everything inside it was compiled to the places of a numbering,
and `PlacedRule.of_none` takes it apart without mentioning the order of a repository again.  For a
whole grammar this is `Builder.placed_of_compileRoot`.
-/

namespace GrammarSearch

/-- A step from a rule to one inside it. -/
inductive RuleStep where
  /-- To the entry of its repository with a name. -/
  | entry (name : String)
  /-- To a place in its list of rules. -/
  | listed (index : Nat)
deriving DecidableEq, Repr

/-- The steps to a rule inside another one. -/
abbrev RuleAddress := List RuleStep

/-- The addresses of entries. -/
def entryAddresses (repository : Table RuleSource) : List RuleAddress :=
  repository.map fun entry => [.entry entry.1]

mutual

/-- The addresses of the rules inside a rule that have places of their own, in the order of their
places: first the entries of the repository, then what is inside them, then the list of rules. -/
def RuleSource.addresses : RuleSource → List RuleAddress
  | ⟨_, _, _, _, _, _, _, _, patterns, includes, repository⟩ =>
    match includes with
    | some _ => []
    | none => entryAddresses repository ++ insideEntries repository ++ insideList 0 patterns

/-- The addresses inside entries. -/
def insideEntries : List (String × RuleSource) → List RuleAddress
  | [] => []
  | (name, source) :: entries =>
    source.addresses.map (.entry name :: ·) ++ insideEntries entries

/-- The addresses in a list of rules from a place on. -/
def insideList : Nat → List RuleSource → List RuleAddress
  | _, [] => []
  | index, source :: sources =>
    (match source.includes with
      | some _ => []
      | none => [.listed index] :: source.addresses.map (.listed index :: ·)) ++
      insideList (index + 1) sources

end

/-- The addresses of a repository and a list of rules. -/
def bodyAddresses (repository : Table RuleSource) (sources : List RuleSource) : List RuleAddress :=
  entryAddresses repository ++ insideEntries repository ++ insideList 0 sources

theorem RuleSource.addresses_of_include {source : RuleSource} {target : String}
    (hInclude : source.includes = some target) : source.addresses = [] := by
  cases source
  cases hInclude
  rw [addresses]

theorem RuleSource.addresses_of_none {source : RuleSource} (hOwn : source.includes = none) :
    source.addresses = bodyAddresses source.repository source.patterns := by
  cases source
  cases hOwn
  rw [addresses, bodyAddresses]

theorem insideList_of_include {source : RuleSource} {target : String}
    (hInclude : source.includes = some target) (index : Nat) (sources : List RuleSource) :
    insideList index (source :: sources) = insideList (index + 1) sources := by
  rw [insideList, hInclude, List.nil_append]

theorem insideList_of_none {source : RuleSource} (hOwn : source.includes = none) (index : Nat)
    (sources : List RuleSource) :
    insideList index (source :: sources) =
      [.listed index] :: source.addresses.map (.listed index :: ·) ++
        insideList (index + 1) sources := by
  rw [insideList, hOwn]

theorem length_entryAddresses (repository : Table RuleSource) :
    (entryAddresses repository).length = repository.length :=
  List.length_map _

theorem length_bodyAddresses (repository : Table RuleSource) (sources : List RuleSource) :
    (bodyAddresses repository sources).length =
      repository.length + (insideEntries repository).length + (insideList 0 sources).length := by
  rw [bodyAddresses, List.length_append, List.length_append, length_entryAddresses]

namespace Compilation

/-- Compiling takes a place for every address: by induction over a rule and the rules in its
lists. -/
theorem size_of_run :
    (∀ scoping node source, ∀ {before after},
      (compileInto scoping node source).run.run before = (.ok (), after) →
      after.rules.size = before.rules.size + source.addresses.length) ∧
    (∀ scoping sources, ∀ index {before after nodes},
      (compileRules scoping sources).run.run before = (.ok nodes, after) →
      after.rules.size = before.rules.size + (insideList index sources).length) ∧
    (∀ scoping next entries, ∀ {before after},
      (compileEntries scoping next entries).run.run before = (.ok (), after) →
      after.rules.size = before.rules.size + (insideEntries entries).length) := by
  have hWritten {node : NodeId} {rule : Rule} {before after : Builder}
      (hWrite : (write node rule).run.run before = (.ok (), after)) :
      after.rules.size = before.rules.size := by
    cases hWrite
    exact Array.size_setIfInBounds
  refine compileInto.mutual_induct _ _ _ ?including ?own ?noRule ?included ?rule ?noEntry ?entry
  case including =>
    intro scoping node _ _ _ _ _ _ _ _ _ _ target before after hRun
    rw [compileInto] at hRun
    obtain ⟨child, between, hChild, hWrite⟩ := exists_of_run_bind hRun
    rw [hWritten hWrite, (found_of_run hChild).1, RuleSource.addresses_of_include rfl]
    rfl
  case own =>
    intro scoping node _ _ _ _ _ _ _ _ patterns repository hEntries hPatterns before after hRun
    rw [compileInto, run_reserve_bind] at hRun
    obtain ⟨_, withEntries, hEntriesRun, hRun⟩ := exists_of_run_bind hRun
    obtain ⟨nodes, withChildren, hChildrenRun, hWrite⟩ := exists_of_run_bind hRun
    rw [hWritten hWrite, hPatterns before.rules.size 0 hChildrenRun,
      hEntries before.rules.size hEntriesRun, RuleSource.addresses_of_none rfl,
      length_bodyAddresses, Builder.size_reserved]
    dsimp only
    omega
  case noRule =>
    intro scoping index before after nodes hRun
    rw [compileRules] at hRun
    cases hRun
    rw [insideList]
    rfl
  case included =>
    intro scoping source sources target hInclude hSources index before after nodes hRun
    rw [compileRules, hInclude] at hRun
    obtain ⟨node, between, hNode, hOthers⟩ := exists_of_run_bind hRun
    obtain ⟨rest, _, hRest, hAnswer⟩ := exists_of_run_bind hOthers
    cases hAnswer
    rw [hSources (index + 1) hRest, (found_of_run hNode).1, insideList_of_include hInclude]
  case rule =>
    intro scoping source sources hOwn hSources hSource index before after nodes hRun
    rw [compileRules, hOwn] at hRun
    simp only [run_reserve_bind, pure_bind] at hRun
    obtain ⟨_, between, hInto, hRun⟩ := exists_of_run_bind hRun
    obtain ⟨rest, _, hRest, hAnswer⟩ := exists_of_run_bind hRun
    cases hAnswer
    rw [hSources (index + 1) hRest, hSource before.rules.size hInto, insideList_of_none hOwn,
      Builder.size_reserved, List.length_append, List.length_cons, List.length_map]
    omega
  case noEntry =>
    intro scoping next before after hRun
    rw [compileEntries] at hRun
    cases hRun
    rw [insideEntries]
    rfl
  case entry =>
    intro scoping next name source entries hSource hEntries before after hRun
    rw [compileEntries] at hRun
    obtain ⟨_, between, hInto, hRest⟩ := exists_of_run_bind hRun
    rw [hEntries hRest, hSource hInto, insideEntries, List.length_append, List.length_map]
    omega

end Compilation

/-! ## Numberings of addresses -/

/-- From an outer address on, addresses have the places from a handle on, in their order. -/
def Numbers (place : RuleAddress → NodeId) (outer : RuleAddress) (start : Nat)
    (addresses : List RuleAddress) : Prop :=
  addresses.map (fun inner => place (outer ++ inner)) =
    (List.range' start addresses.length).map NodeId.mk

section

variable {place : RuleAddress → NodeId} {outer : RuleAddress} {start : Nat}

theorem numbers_append {addresses others : List RuleAddress} :
    Numbers place outer start (addresses ++ others) ↔
      Numbers place outer start addresses ∧
        Numbers place outer (start + addresses.length) others := by
  rw [Numbers, List.map_append, List.length_append, ← List.range'_append_1, List.map_append]
  constructor
  · intro hAll
    exact List.append_inj hAll (by simp)
  · rintro ⟨hFirst, hRest⟩
    rw [hFirst, hRest]

theorem numbers_cons {first : RuleAddress} {rest : List RuleAddress} :
    Numbers place outer start (first :: rest) ↔
      place (outer ++ first) = ⟨start⟩ ∧ Numbers place outer (start + 1) rest := by
  rw [Numbers, List.length_cons, List.range'_succ, List.map_cons, List.map_cons, List.cons.injEq,
    Numbers]

theorem numbers_map_cons {step : RuleStep} {addresses : List RuleAddress} :
    Numbers place outer start (addresses.map (step :: ·)) ↔
      Numbers place (outer ++ [step]) start addresses := by
  simp [Numbers, Function.comp_def]

/-- The handles of the entries of a repository, by a numbering. -/
def placedEntries (place : RuleAddress → NodeId) (outer : RuleAddress)
    (repository : Table RuleSource) : Repository :=
  repository.map fun entry => (entry.1, place (outer ++ [.entry entry.1]))

theorem entryHandles_eq {repository : Table RuleSource}
    (hNumbers : Numbers place outer start (entryAddresses repository)) :
    Compilation.entryHandles start repository = placedEntries place outer repository := by
  induction repository generalizing start with
  | nil => rfl
  | cons entry repository ih =>
    obtain ⟨hFirst, hRest⟩ := numbers_cons.1 hNumbers
    rw [placedEntries, List.map_cons, hFirst]
    exact congrArg ((entry.1, ⟨start⟩) :: ·) (ih hRest)

end

/-- The places of listed addresses, one after another behind that of a root. -/
def placesBehind (root : NodeId) (listed : List RuleAddress) (address : RuleAddress) : NodeId :=
  if address = [] then root else ⟨root.index + 1 + listed.idxOf address⟩

section

variable {root : NodeId} {listed : List RuleAddress}

theorem placesBehind_getElem (hDistinct : listed.Nodup) (hRoot : [] ∉ listed) {index : Nat}
    (hIndex : index < listed.length) :
    placesBehind root listed listed[index] = ⟨root.index + 1 + index⟩ := by
  have hInside : listed[index] ≠ [] := fun hNil => hRoot (hNil ▸ List.getElem_mem hIndex)
  rw [placesBehind, if_neg hInside, hDistinct.idxOf_getElem]

theorem numbers_placesBehind (hDistinct : listed.Nodup) (hRoot : [] ∉ listed) :
    Numbers (placesBehind root listed) [] (root.index + 1) listed := by
  refine List.ext_getElem (by simp) fun index hLeft _ => ?_
  rw [List.length_map] at hLeft
  simp [placesBehind_getElem hDistinct hRoot hLeft]

/-- Behind the root there are no other places. -/
theorem exists_placesBehind_eq (hDistinct : listed.Nodup) (hRoot : [] ∉ listed) {node : NodeId}
    (hBehind : root.index < node.index) (hNode : node.index < root.index + 1 + listed.length) :
    ∃ address ∈ listed, placesBehind root listed address = node := by
  have hIndex : node.index - (root.index + 1) < listed.length := by omega
  refine ⟨_, List.getElem_mem hIndex, ?_⟩
  rw [placesBehind_getElem hDistinct hRoot, Nat.add_sub_cancel' hBehind]

end

/-! ## Rules at their places -/

/-- A rule was compiled to the place of its address, and everything inside it to the places of
theirs, and rules have kept what was written. -/
def PlacedRule (rules : Array Rule) (place : RuleAddress → NodeId) (scoping : Scoping)
    (address : RuleAddress) (source : RuleSource) : Prop :=
  ∃ before after, (Compilation.compileInto scoping (place address) source).run.run before =
      (.ok (), after) ∧
    (place address).index < before.rules.size ∧
    Numbers place address before.rules.size source.addresses ∧
    Keeps rules after fun index =>
      index = (place address).index ∨ before.rules.size ≤ index ∧ index < after.rules.size

/-- A handle that a list of rules has for one of them: the rule that it includes, or its place. -/
inductive PlacedChild (rules : Array Rule) (place : RuleAddress → NodeId) (scoping : Scoping)
    (address : RuleAddress) (source : RuleSource) : NodeId → Prop
  | included {target : String} {node : NodeId} (hInclude : source.includes = some target)
      (hFound : scoping.resolve? target = some node) :
      PlacedChild rules place scoping address source node
  | own (hOwn : source.includes = none) (hPlaced : PlacedRule rules place scoping address source) :
      PlacedChild rules place scoping address source (place address)

/-- The handles that a list of rules has, from a place of the list on. -/
inductive PlacedList (rules : Array Rule) (place : RuleAddress → NodeId) (scoping : Scoping)
    (outer : RuleAddress) : Nat → List RuleSource → List NodeId → Prop
  | nil {index : Nat} : PlacedList rules place scoping outer index [] []
  | cons {index : Nat} {source : RuleSource} {sources : List RuleSource} {node : NodeId}
      {nodes : List NodeId}
      (hFirst : PlacedChild rules place scoping (outer ++ [.listed index]) source node)
      (hRest : PlacedList rules place scoping outer (index + 1) sources nodes) :
      PlacedList rules place scoping outer index (source :: sources) (node :: nodes)

section

open Compilation

variable {rules : Array Rule} {place : RuleAddress → NodeId} {scoping : Scoping}
variable {outer address : RuleAddress} {source : RuleSource} {before after : Builder}

/-- Entries that were compiled to the places of a numbering. -/
theorem placedRule_of_compileEntries {next : Nat} {entries : Table RuleSource}
    (hRun : (compileEntries scoping next entries).run.run before = (.ok (), after))
    (hSize : next + entries.length ≤ before.rules.size)
    (hPlaces : Numbers place outer next (entryAddresses entries))
    (hInside : Numbers place outer before.rules.size (insideEntries entries))
    (hKeeps : Keeps rules after fun index => next ≤ index ∧ index < next + entries.length ∨
      before.rules.size ≤ index ∧ index < after.rules.size)
    {name : String} (hMem : (name, source) ∈ entries) :
    PlacedRule rules place scoping (outer ++ [.entry name]) source := by
  induction entries generalizing next before with
  | nil => exact absurd hMem List.not_mem_nil
  | cons entry entries ih =>
    obtain ⟨other, first⟩ := entry
    rw [compileEntries] at hRun
    obtain ⟨_, between, hInto, hRest⟩ := exists_of_run_bind hRun
    obtain ⟨hPlace, hPlaces⟩ := numbers_cons.1 hPlaces
    rw [insideEntries] at hInside
    obtain ⟨hHere, hLater⟩ := numbers_append.1 hInside
    have hSizes := size_of_run.1 _ _ _ hInto
    have hNext := ((confined_compileEntries _ _ _).of_run hRest).size_le
    -- What is inside the later entries starts where the first entry stopped taking places.
    rw [List.length_map, ← hSizes] at hLater
    rw [List.length_cons] at hSize hKeeps
    rcases List.mem_cons.1 hMem with hFirst | hMem
    · cases hFirst
      refine ⟨before, between, ?_, ?_, numbers_map_cons.1 hHere, ?_⟩
      · rw [hPlace]
        exact hInto
      · rw [hPlace]
        show next < before.rules.size
        omega
      · refine hKeeps.before ((confined_compileEntries _ _ _).of_run hRest) fun index h => ?_
        rw [hPlace] at h
        have hIndex : index = next ∨ before.rules.size ≤ index ∧ index < between.rules.size := h
        omega
    · exact ih hRest (by omega) hPlaces hLater (fun index h => hKeeps index (by omega)) hMem

/-- Rules that were compiled to the places of a numbering. -/
theorem placedList_of_compileRules {sources : List RuleSource} {nodes : List NodeId} {index : Nat}
    (hRun : (compileRules scoping sources).run.run before = (.ok nodes, after))
    (hInside : Numbers place outer before.rules.size (insideList index sources))
    (hKeeps : Keeps rules after fun index =>
      before.rules.size ≤ index ∧ index < after.rules.size) :
    PlacedList rules place scoping outer index sources nodes := by
  induction sources generalizing before nodes index with
  | nil =>
    rw [compileRules] at hRun
    cases hRun
    exact .nil
  | cons source sources ih =>
    cases hInclude : source.includes with
    | some target =>
      rw [compileRules, hInclude] at hRun
      obtain ⟨node, between, hNode, hOthers⟩ := exists_of_run_bind hRun
      obtain ⟨rfl, hFound⟩ := found_of_run hNode
      obtain ⟨rest, _, hRest, hAnswer⟩ := exists_of_run_bind hOthers
      cases hAnswer
      rw [insideList_of_include hInclude] at hInside
      exact .cons (.included hInclude hFound) (ih hRest hInside hKeeps)
    | none =>
      rw [compileRules, hInclude] at hRun
      simp only [run_reserve_bind, pure_bind] at hRun
      obtain ⟨_, between, hInto, hOthers⟩ := exists_of_run_bind hRun
      obtain ⟨rest, _, hRest, hAnswer⟩ := exists_of_run_bind hOthers
      cases hAnswer
      rw [insideList_of_none hInclude] at hInside
      obtain ⟨hHere, hLater⟩ := numbers_append.1 hInside
      obtain ⟨hPlace, hHere⟩ := numbers_cons.1 hHere
      have hReserved := Builder.size_reserved before 1
      have hSizes := size_of_run.1 _ _ _ hInto
      have hNext := ((confined_compileRules _ _).of_run hRest).size_le
      have hStart : before.rules.size +
          ([.listed index] :: source.addresses.map (RuleStep.listed index :: ·)).length =
            between.rules.size := by
        rw [List.length_cons, List.length_map]
        omega
      rw [hStart] at hLater
      refine .cons (hPlace ▸ .own hInclude ?_) (ih hRest hLater fun index h => hKeeps index ?_)
      · refine ⟨before.reserved 1, between, ?_, ?_, ?_, ?_⟩
        · rw [hPlace]
          exact hInto
        · rw [hPlace, hReserved]
          exact Nat.lt_succ_self _
        · rw [hReserved]
          exact numbers_map_cons.1 hHere
        · refine hKeeps.before ((confined_compileRules _ _).of_run hRest) fun other h => ?_
          rw [hPlace, hReserved] at h
          have hOther : other = before.rules.size ∨
            before.rules.size + 1 ≤ other ∧ other < between.rules.size := h
          exact ⟨by omega, by omega, id⟩
      · omega

/-- A repository and a list of rules that were compiled to the places of a numbering. -/
theorem placed_body {repository : Table RuleSource} {sources : List RuleSource}
    {nodes : List NodeId} {withEntries : Builder}
    (hEntries : (compileEntries scoping before.rules.size repository).run.run
      (before.reserved repository.length) = (.ok (), withEntries))
    (hRules : (compileRules scoping sources).run.run withEntries = (.ok nodes, after))
    (hNumbers : Numbers place outer before.rules.size (bodyAddresses repository sources))
    (hKeeps : Keeps rules after fun index =>
      before.rules.size ≤ index ∧ index < after.rules.size) :
    (∀ name entry, (name, entry) ∈ repository →
      PlacedRule rules place scoping (outer ++ [.entry name]) entry) ∧
    PlacedList rules place scoping outer 0 sources nodes := by
  have hReserved := Builder.size_reserved before repository.length
  have hRulesKept := (confined_compileRules _ _).of_run hRules
  have hSize := size_of_run.2.2 _ _ _ hEntries
  have hNext := hRulesKept.size_le
  rw [hReserved] at hSize
  rw [bodyAddresses, numbers_append, numbers_append, List.length_append, length_entryAddresses,
    ← Nat.add_assoc, ← hSize] at hNumbers
  obtain ⟨⟨hPlaces, hInEntries⟩, hInList⟩ := hNumbers
  refine ⟨fun name entry hMem => ?_, ?_⟩
  · refine placedRule_of_compileEntries hEntries (Nat.le_of_eq hReserved.symm) hPlaces ?_ ?_ hMem
    · rwa [hReserved]
    · refine hKeeps.before hRulesKept fun index h => ?_
      rw [hReserved] at h
      exact ⟨by omega, by omega, id⟩
  · exact placedList_of_compileRules hRules hInList fun index h => hKeeps index (by omega)

namespace PlacedRule

/-- A rule with an include groups what the include refers to. -/
theorem of_include (hPlaced : PlacedRule rules place scoping address source) {target : String}
    (hInclude : source.includes = some target) :
    ∃ child, scoping.resolve? target = some child ∧
      rules[(place address).index]? = some { children := [child] } := by
  obtain ⟨before, after, hRun, hSize, -, hKeeps⟩ := hPlaced
  rw [compileInto_of_include hInclude] at hRun
  obtain ⟨child, between, hChild, hWrite⟩ := exists_of_run_bind hRun
  obtain ⟨rfl, hFound⟩ := found_of_run hChild
  refine ⟨child, hFound, ?_⟩
  rw [hKeeps _ (.inl rfl)]
  cases hWrite
  exact Array.getElem?_setIfInBounds_self_of_lt hSize

/-- A rule without an include stands over its list of rules, which see its repository, as do its
entries. -/
theorem of_none (hPlaced : PlacedRule rules place scoping address source)
    (hOwn : source.includes = none) :
    (∀ name entry, (name, entry) ∈ source.repository →
      PlacedRule rules place (scoping.within (placedEntries place address source.repository))
        (address ++ [.entry name]) entry) ∧
    ∃ children, PlacedList rules place
        (scoping.within (placedEntries place address source.repository)) address 0 source.patterns
        children ∧
      rules[(place address).index]? = some (ruleOf source children) := by
  obtain ⟨before, after, hRun, hPlace, hNumbers, hKeeps⟩ := hPlaced
  rw [RuleSource.addresses_of_none hOwn] at hNumbers
  have hPlaces := (numbers_append.1 (numbers_append.1 hNumbers).1).1
  rw [compileInto_of_none hOwn, run_reserve_bind, entryHandles_eq hPlaces] at hRun
  obtain ⟨_, withEntries, hEntriesRun, hRun⟩ := exists_of_run_bind hRun
  obtain ⟨children, withChildren, hChildrenRun, hWrite⟩ := exists_of_run_bind hRun
  have hReserved := Builder.size_reserved before source.repository.length
  have hFirstSize := ((confined_compileEntries _ _ _).of_run hEntriesRun).size_le
  have hNextSize := ((confined_compileRules _ _).of_run hChildrenRun).size_le
  have hWritten := (confined_write (place address) _).of_run hWrite
  have hLastSize := hWritten.size_le
  obtain ⟨hEntries, hList⟩ := placed_body hEntriesRun hChildrenRun hNumbers
    (hKeeps.before hWritten fun index h => ⟨.inr (by omega), h.2, by omega⟩)
  refine ⟨hEntries, children, hList, ?_⟩
  rw [hKeeps _ (.inl rfl)]
  cases hWrite
  exact Array.getElem?_setIfInBounds_self_of_lt (by omega)

end PlacedRule

end

/-! ## Grammars at their places -/

/-- The rules of a grammar outside its repository: its patterns, then those that are injected. -/
def GrammarSource.body (source : GrammarSource) : List RuleSource :=
  source.patterns ++ source.injections.map Prod.snd

/-- The addresses of the rules in a grammar. -/
def GrammarSource.addresses (source : GrammarSource) : List RuleAddress :=
  bodyAddresses source.repository source.body

theorem insideList_append (index : Nat) (sources others : List RuleSource) :
    insideList index (sources ++ others) =
      insideList index sources ++ insideList (index + sources.length) others := by
  induction sources generalizing index with
  | nil => rw [List.nil_append, insideList, List.nil_append, List.length_nil, Nat.add_zero]
  | cons source sources ih =>
    rw [List.cons_append, insideList, insideList, ih, List.append_assoc, List.length_cons,
      Nat.add_assoc, Nat.add_comm 1]

theorem bodyAddresses_append (repository : Table RuleSource) (sources others : List RuleSource) :
    bodyAddresses repository (sources ++ others) =
      bodyAddresses repository sources ++ insideList sources.length others := by
  rw [bodyAddresses, insideList_append, ← List.append_assoc, Nat.zero_add, bodyAddresses]

namespace PlacedList

variable {rules : Array Rule} {place : RuleAddress → NodeId} {scoping : Scoping}
variable {outer : RuleAddress} {index : Nat} {sources others : List RuleSource}
variable {nodes more : List NodeId}

theorem length_eq (h : PlacedList rules place scoping outer index sources nodes) :
    nodes.length = sources.length := by
  induction h with
  | nil => rfl
  | cons _ _ ih => rw [List.length_cons, List.length_cons, ih]

theorem append (h : PlacedList rules place scoping outer index sources nodes)
    (hMore : PlacedList rules place scoping outer (index + sources.length) others more) :
    PlacedList rules place scoping outer index (sources ++ others) (nodes ++ more) := by
  induction h with
  | nil => exact hMore
  | cons hFirst _ ih =>
    refine .cons hFirst (ih ?_)
    rwa [List.length_cons, Nat.add_comm _ 1, ← Nat.add_assoc] at hMore

end PlacedList

namespace Builder

open Compilation

variable {scoping : Scoping} {source : GrammarSource} {before after : Builder} {rule : Rule}

/-- A grammar takes a place for its root and one for every address. -/
theorem size_of_compileRoot
    (hRun : (compileRoot scoping source).run.run before = (.ok rule, after)) :
    after.rules.size = before.rules.size + 1 + source.addresses.length := by
  obtain ⟨withEntries, withChildren, children, injections, hEntries, hChildren, hInjections, -⟩ :=
    parts_of_compileRoot hRun
  obtain ⟨targets, _, hTargets, hAnswer⟩ := exists_of_run_bind hInjections
  cases hAnswer
  have hFirst := size_of_run.2.2 _ _ _ hEntries
  have hSecond := size_of_run.2.1 _ _ 0 hChildren
  have hThird : after.rules.size = withChildren.rules.size +
      (insideList source.patterns.length (source.injections.map Prod.snd)).length :=
    size_of_run.2.1 _ _ _ hTargets
  rw [size_reserved, size_reserved] at hFirst
  rw [GrammarSource.addresses, GrammarSource.body, bodyAddresses_append, List.length_append,
    length_bodyAddresses]
  omega

/-- A grammar that was compiled to the places of a numbering: its entries and its other rules are at
theirs, and its root refers to the latter. -/
theorem placed_of_compileRoot
    (hRun : (compileRoot scoping source).run.run before = (.ok rule, after))
    {place : RuleAddress → NodeId}
    (hNumbers : Numbers place [] (before.rules.size + 1) source.addresses) {rules : Array Rule}
    (hKeeps : Keeps rules after fun index =>
      before.rules.size < index ∧ index < after.rules.size) :
    (∀ name entry, (name, entry) ∈ source.repository →
      PlacedRule rules place scoping [.entry name] entry) ∧
    ∃ children targets, children.length = source.patterns.length ∧
      PlacedList rules place scoping [] 0 source.body (children ++ targets) ∧
      rule = { name := some source.scopeName, children := children
               injections :=
                List.zipWith Injection.mk (source.injections.map Prod.fst) targets } := by
  obtain ⟨withEntries, withChildren, children, injections, hEntries, hChildren, hInjections, rfl⟩ :=
    parts_of_compileRoot hRun
  obtain ⟨targets, _, hTargets, hAnswer⟩ := exists_of_run_bind hInjections
  cases hAnswer
  have hReserved := size_reserved before 1
  have hTargetsKept := (confined_compileRules _ _).of_run hTargets
  have hSize := hTargetsKept.size_le
  rw [GrammarSource.addresses, GrammarSource.body, bodyAddresses_append, numbers_append] at hNumbers
  obtain ⟨hInBody, hInInjections⟩ := hNumbers
  have hStart : before.rules.size + 1 + (bodyAddresses source.repository source.patterns).length =
      withChildren.rules.size := by
    rw [length_bodyAddresses, size_of_run.2.1 _ _ 0 hChildren, size_of_run.2.2 _ _ _ hEntries,
      size_reserved, hReserved]
    omega
  rw [hStart] at hInInjections
  rw [← hReserved] at hEntries hInBody
  obtain ⟨hPlaced, hPatterns⟩ := placed_body hEntries hChildren hInBody
    (hKeeps.before hTargetsKept fun index h => ⟨by omega, h.2, id⟩)
  have hInjected : PlacedList rules place scoping [] source.patterns.length
      (source.injections.map Prod.snd) targets :=
    placedList_of_compileRules hTargets hInInjections fun index h => hKeeps index (by omega)
  refine ⟨hPlaced, children, targets, hPatterns.length_eq, hPatterns.append ?_, ?_⟩
  · rwa [Nat.zero_add]
  · rw [List.zipWith_map_left]

end Builder

end GrammarSearch
