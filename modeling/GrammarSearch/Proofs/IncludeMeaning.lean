import GrammarSearch.Proofs.LoadedGrammars
import Mathlib.Data.List.TakeWhile

/-!
# What includes mean

`Means` says what an include stands for, given the repositories around it and the grammars that are
loaded.  The repositories are listed from the inside, the last one is that of the grammar.  Nothing
depends on what their entries are: for grammars as they are written an entry is a rule as it is
written, for compiled ones it is a handle, and the two go together (`means_mapValues_iff`).

The look-up that compiling uses finds exactly what is meant (`Scoping.resolve?_eq_some_iff`).
-/

namespace GrammarSearch

variable {ε δ : Type}

namespace Table

/-- The table with other values under its names. -/
def mapValues (change : ε → δ) (table : Table ε) : Table δ :=
  table.map fun entry => (entry.1, change entry.2)

theorem lookup_mapValues (change : ε → δ) (table : Table ε) (name : String) :
    (table.mapValues change).lookup name = (table.lookup name).map change := by
  induction table with
  | nil => rfl
  | cons entry rest ih =>
    show List.lookup name ((entry.1, change entry.2) :: mapValues change rest) = _
    rw [List.lookup_cons, List.lookup_cons, ih]
    cases name == entry.1 <;> rfl

end Table

/-- What an include means. -/
inductive Meaning (ε : Type) where
  /-- The root of the grammar in which the include stands. -/
  | root
  /-- An entry of a repository around it. -/
  | entry (entry : ε)
  /-- A rule of a grammar that is loaded. -/
  | loaded (node : NodeId)

namespace Meaning

/-- The meaning where entries are something else. -/
def map (change : ε → δ) : Meaning ε → Meaning δ
  | root => root
  | entry value => entry (change value)
  | loaded node => loaded node

/-- The rule that is meant, in a grammar with the given root. -/
def handle (own : NodeId) : Meaning NodeId → NodeId
  | root => own
  | entry node => node
  | loaded node => node

end Meaning

/-- What an include means in a grammar with a scope name, among the grammars that are loaded and
inside some repositories, of which the innermost comes first and that of the grammar last. -/
inductive Means (loaded : List Loaded) (scopeName : String) (around : List (Table ε)) :
    String → Meaning ε → Prop
  | self : Means loaded scopeName around "$self" .root
  | base : Means loaded scopeName around "$base" .root
  /-- The innermost repository that has the name. -/
  | near {inside outside : List (Table ε)} {repository : Table ε} {name : String} {entry : ε}
      (hAround : around = inside ++ repository :: outside)
      (hHidden : ∀ nearer ∈ inside, nearer.lookup name = none)
      (hEntry : repository.lookup name = some entry) :
      Means loaded scopeName around ("#" ++ name) (.entry entry)
  /-- The grammar's own repository, whatever the repositories inside it have. -/
  | ownEntry {repository : Table ε} {name : String} {entry : ε}
      (hScope : scopeName ≠ "") (hPlain : '#' ∉ scopeName.toList)
      (hLast : around.getLast? = some repository)
      (hEntry : repository.lookup name = some entry) :
      Means loaded scopeName around (scopeName ++ "#" ++ name) (.entry entry)
  /-- The repository of the grammar last added under another scope name. -/
  | loadedEntry {scope name : String} {grammar : Loaded} {node : NodeId}
      (hScope : scope ≠ "") (hPlain : '#' ∉ scope.toList) (hOther : scope ≠ scopeName)
      (hCurrent : Loaded.current? loaded scope = some grammar)
      (hEntry : grammar.repository.lookup name = some node) :
      Means loaded scopeName around (scope ++ "#" ++ name) (.loaded node)
  | ownRoot (hPlain : '#' ∉ scopeName.toList) : Means loaded scopeName around scopeName .root
  /-- The root of the grammar last added under another scope name. -/
  | loadedRoot {scope : String} {grammar : Loaded} (hPlain : '#' ∉ scope.toList)
      (hSelf : scope ≠ "$self") (hBase : scope ≠ "$base") (hOther : scope ≠ scopeName)
      (hCurrent : Loaded.current? loaded scope = some grammar) :
      Means loaded scopeName around scope (.loaded grammar.root)

variable {loaded : List Loaded} {scopeName target : String} {around : List (Table ε)}

/-- What an include means does not depend on what the entries are. -/
theorem Means.mapValues (change : ε → δ) {meaning : Meaning ε}
    (hMeans : Means loaded scopeName around target meaning) :
    Means loaded scopeName (around.map (Table.mapValues change)) target (meaning.map change) := by
  cases hMeans with
  | self => exact .self
  | base => exact .base
  | near hAround hHidden hEntry =>
    refine .near (by rw [hAround, List.map_append, List.map_cons]) ?_ ?_
    · intro nearer hNearer
      obtain ⟨table, hTable, rfl⟩ := List.mem_map.1 hNearer
      rw [Table.lookup_mapValues, hHidden table hTable, Option.map_none]
    · rw [Table.lookup_mapValues, hEntry, Option.map_some]
  | ownEntry hScope hPlain hLast hEntry =>
    refine .ownEntry hScope hPlain (by rw [List.getLast?_map, hLast, Option.map_some]) ?_
    rw [Table.lookup_mapValues, hEntry, Option.map_some]
  | loadedEntry hScope hPlain hOther hCurrent hEntry =>
    exact .loadedEntry hScope hPlain hOther hCurrent hEntry
  | ownRoot hPlain => exact .ownRoot hPlain
  | loadedRoot hPlain hSelf hBase hOther hCurrent =>
    exact .loadedRoot hPlain hSelf hBase hOther hCurrent

/-- What an include means does not depend on what the entries are: other entries of the same names
are meant by the same includes. -/
theorem means_mapValues_iff (change : ε → δ) {meaning : Meaning δ} :
    Means loaded scopeName (around.map (Table.mapValues change)) target meaning ↔
      ∃ before : Meaning ε, Means loaded scopeName around target before ∧
        before.map change = meaning := by
  constructor
  · intro hMeans
    cases hMeans with
    | self => exact ⟨.root, .self, rfl⟩
    | base => exact ⟨.root, .base, rfl⟩
    | near hAround hHidden hEntry =>
      obtain ⟨inside, rest, rfl, rfl, hRest⟩ := List.map_eq_append_iff.1 hAround
      obtain ⟨repository, outside, rfl, rfl, rfl⟩ := List.map_eq_cons_iff.1 hRest
      rw [Table.lookup_mapValues] at hEntry
      obtain ⟨entry, hFound, rfl⟩ := Option.map_eq_some_iff.1 hEntry
      refine ⟨.entry entry, .near rfl ?_ hFound, rfl⟩
      intro nearer hNearer
      have hNone := hHidden _ (List.mem_map_of_mem hNearer)
      rwa [Table.lookup_mapValues, Option.map_eq_none_iff] at hNone
    | ownEntry hScope hPlain hLast hEntry =>
      rw [List.getLast?_map] at hLast
      obtain ⟨repository, hTop, rfl⟩ := Option.map_eq_some_iff.1 hLast
      rw [Table.lookup_mapValues] at hEntry
      obtain ⟨entry, hFound, rfl⟩ := Option.map_eq_some_iff.1 hEntry
      exact ⟨.entry entry, .ownEntry hScope hPlain hTop hFound, rfl⟩
    | loadedEntry hScope hPlain hOther hCurrent hEntry =>
      exact ⟨.loaded _, .loadedEntry hScope hPlain hOther hCurrent hEntry, rfl⟩
    | ownRoot hPlain => exact ⟨.root, .ownRoot hPlain, rfl⟩
    | loadedRoot hPlain hSelf hBase hOther hCurrent =>
      exact ⟨.loaded _, .loadedRoot hPlain hSelf hBase hOther hCurrent, rfl⟩
  · rintro ⟨before, hMeans, rfl⟩
    exact hMeans.mapValues change

namespace Scoping

/-! ## Looking up -/

theorem splitScope?_append {scope : List Char} (hPlain : '#' ∉ scope) (name : List Char) :
    splitScope? (scope ++ '#' :: name) = some (scope, name) := by
  have hScope : ∀ letter ∈ scope, (letter != '#') = true := by
    intro letter hLetter
    simpa using fun h : letter = '#' => hPlain (h ▸ hLetter)
  simp only [splitScope?, List.dropWhile_append_of_pos hScope, List.takeWhile_append_of_pos hScope]
  simp

theorem splitScope?_of_notMem {target : List Char} (hPlain : '#' ∉ target) :
    splitScope? target = none := by
  have hAll : target.dropWhile (· != '#') = [] := by
    apply List.dropWhile_eq_nil_iff.2
    intro letter hLetter
    simpa using fun h : letter = '#' => hPlain (h ▸ hLetter)
  simp only [splitScope?, hAll]

theorem toList_entry (scope name : String) :
    (scope ++ "#" ++ name).toList = scope.toList ++ '#' :: name.toList := by
  simp

/-- The forms of an include: one of the two names of the own root, an entry by its name alone, an
entry of a scope, or a scope alone. -/
theorem include_forms (target : String) :
    target = "$self" ∨ target = "$base" ∨ (∃ name, target = "#" ++ name) ∨
    (∃ scope name, scope ≠ "" ∧ '#' ∉ scope.toList ∧ target = scope ++ "#" ++ name) ∨
    ('#' ∉ target.toList ∧ target ≠ "$self" ∧ target ≠ "$base") := by
  by_cases hMem : '#' ∈ target.toList
  · obtain ⟨scope, name, hTarget, hPlain⟩ := List.eq_append_cons_of_mem hMem
    have hSpelled : target = String.ofList scope ++ "#" ++ String.ofList name := by
      apply String.toList_injective
      rw [toList_entry, String.toList_ofList, String.toList_ofList, hTarget]
    by_cases hScope : String.ofList scope = ""
    · rw [hScope, String.empty_append] at hSpelled
      exact .inr (.inr (.inl ⟨_, hSpelled⟩))
    · refine .inr (.inr (.inr (.inl ⟨_, _, hScope, ?_, hSpelled⟩)))
      rwa [String.toList_ofList]
  · by_cases hSelf : target = "$self"
    · exact .inl hSelf
    · by_cases hBase : target = "$base"
      · exact .inr (.inl hBase)
      · exact .inr (.inr (.inr (.inr ⟨hMem, hSelf, hBase⟩)))

variable (scoping : Scoping)

theorem resolve?_self : scoping.resolve? "$self" = some scoping.root :=
  if_pos (.inl rfl)

theorem resolve?_base : scoping.resolve? "$base" = some scoping.root :=
  if_pos (.inr rfl)

/-- Neither name of the own root has a `#`. -/
theorem ne_own_of_mem {target : String} (hMem : '#' ∈ target.toList) :
    ¬ (target = "$self" ∨ target = "$base") := by
  rintro (rfl | rfl)
  · exact absurd hMem (by decide)
  · exact absurd hMem (by decide)

theorem resolve?_near (name : String) :
    scoping.resolve? ("#" ++ name) = scoping.localEntry? name := by
  have hList : ("#" ++ name).toList = [] ++ '#' :: name.toList := by simp
  have hSplit : splitScope? ("#" ++ name).toList = some ([], name.toList) := by
    rw [hList]
    exact splitScope?_append List.not_mem_nil name.toList
  have hOther : ¬ ("#" ++ name = "$self" ∨ "#" ++ name = "$base") := ne_own_of_mem (by simp)
  simp only [resolve?, if_neg hOther, hSplit, String.ofList_toList]

theorem resolve?_entry {scope : String} (hScope : scope ≠ "") (hPlain : '#' ∉ scope.toList)
    (name : String) : scoping.resolve? (scope ++ "#" ++ name) = scoping.scopeEntry? scope name := by
  have hSplit : splitScope? (scope ++ "#" ++ name).toList = some (scope.toList, name.toList) := by
    rw [toList_entry]
    exact splitScope?_append hPlain name.toList
  have hOther : ¬ (scope ++ "#" ++ name = "$self" ∨ scope ++ "#" ++ name = "$base") :=
    ne_own_of_mem (by simp)
  have hSome : scope.toList ≠ [] := by simpa using hScope
  simp only [resolve?, if_neg hOther, hSplit, String.ofList_toList]

theorem resolve?_scope {target : String} (hPlain : '#' ∉ target.toList)
    (hSelf : target ≠ "$self") (hBase : target ≠ "$base") :
    scoping.resolve? target = scoping.scopeRoot? target := by
  have hOther : ¬ (target = "$self" ∨ target = "$base") := by
    rintro (h | h)
    · exact hSelf h
    · exact hBase h
  simp only [resolve?, if_neg hOther, splitScope?_of_notMem hPlain]

/-- The repositories around a place, innermost first. -/
def surrounding (scoping : Scoping) : List Repository :=
  scoping.inner ++ [scoping.own]

variable {scoping} {loaded : List Loaded} {target : String} {node : NodeId}

theorem getLast?_surrounding : scoping.surrounding.getLast? = some scoping.own :=
  List.getLast?_concat

/-- What is meant is found. -/
theorem resolve?_of_means (hTables : Loaded.InTables loaded scoping.roots scoping.repositories)
    {meaning : Meaning NodeId}
    (hMeans : Means loaded scoping.scopeName scoping.surrounding target meaning) :
    scoping.resolve? target = some (meaning.handle scoping.root) := by
  cases hMeans with
  | self => exact scoping.resolve?_self
  | base => exact scoping.resolve?_base
  | near hAround hHidden hEntry =>
    rw [resolve?_near, localEntry?]
    exact List.findSome?_eq_some_iff.2 ⟨_, _, _, hAround, hEntry, hHidden⟩
  | ownEntry hScope hPlain hLast hEntry =>
    rw [getLast?_surrounding] at hLast
    cases hLast
    rw [resolve?_entry scoping hScope hPlain, scopeEntry?, if_pos rfl]
    exact hEntry
  | loadedEntry hScope hPlain hOther hCurrent hEntry =>
    rw [resolve?_entry scoping hScope hPlain, scopeEntry?, if_neg hOther, hTables.repositories_eq,
      hCurrent]
    exact hEntry
  | ownRoot hPlain =>
    by_cases hOwn : scoping.scopeName = "$self" ∨ scoping.scopeName = "$base"
    · exact if_pos hOwn
    · rw [resolve?_scope scoping hPlain (fun h => hOwn (.inl h)) (fun h => hOwn (.inr h)),
        scopeRoot?, if_pos rfl]
      rfl
  | loadedRoot hPlain hSelf hBase hOther hCurrent =>
    rw [resolve?_scope scoping hPlain hSelf hBase, scopeRoot?, if_neg hOther, hTables.roots_eq,
      hCurrent]
    rfl

/-- What is found is meant. -/
theorem exists_means (hTables : Loaded.InTables loaded scoping.roots scoping.repositories)
    (hFound : scoping.resolve? target = some node) :
    ∃ meaning, Means loaded scoping.scopeName scoping.surrounding target meaning ∧
      meaning.handle scoping.root = node := by
  rcases include_forms target with rfl | rfl | ⟨name, rfl⟩ | ⟨scope, name, hScope, hPlain, rfl⟩ |
    ⟨hPlain, hSelf, hBase⟩
  · rw [resolve?_self] at hFound
    exact ⟨.root, .self, Option.some.inj hFound⟩
  · rw [resolve?_base] at hFound
    exact ⟨.root, .base, Option.some.inj hFound⟩
  · rw [resolve?_near, localEntry?] at hFound
    obtain ⟨inside, repository, outside, hAround, hEntry, hHidden⟩ :=
      List.findSome?_eq_some_iff.1 hFound
    exact ⟨.entry node, .near hAround hHidden hEntry, rfl⟩
  · rw [resolve?_entry scoping hScope hPlain, scopeEntry?] at hFound
    by_cases hOwn : scope = scoping.scopeName
    · subst hOwn
      rw [if_pos rfl] at hFound
      exact ⟨.entry node, .ownEntry hScope hPlain getLast?_surrounding hFound, rfl⟩
    · rw [if_neg hOwn, hTables.repositories_eq] at hFound
      obtain ⟨repository, hRepository, hEntry⟩ := Option.bind_eq_some_iff.1 hFound
      obtain ⟨grammar, hCurrent, rfl⟩ := Option.map_eq_some_iff.1 hRepository
      exact ⟨.loaded node, .loadedEntry hScope hPlain hOwn hCurrent hEntry, rfl⟩
  · rw [resolve?_scope scoping hPlain hSelf hBase, scopeRoot?] at hFound
    by_cases hOwn : target = scoping.scopeName
    · subst hOwn
      rw [if_pos rfl] at hFound
      exact ⟨.root, .ownRoot hPlain, Option.some.inj hFound⟩
    · rw [if_neg hOwn, hTables.roots_eq] at hFound
      obtain ⟨grammar, hCurrent, rfl⟩ := Option.map_eq_some_iff.1 hFound
      exact ⟨.loaded grammar.root, .loadedRoot hPlain hSelf hBase hOwn hCurrent, rfl⟩

/-- The look-up finds exactly what is meant. -/
theorem resolve?_eq_some_iff
    (hTables : Loaded.InTables loaded scoping.roots scoping.repositories) :
    scoping.resolve? target = some node ↔
      ∃ meaning, Means loaded scoping.scopeName scoping.surrounding target meaning ∧
        meaning.handle scoping.root = node := by
  constructor
  · exact exists_means hTables
  · rintro ⟨meaning, hMeans, rfl⟩
    exact resolve?_of_means hTables hMeans

end Scoping

end GrammarSearch
