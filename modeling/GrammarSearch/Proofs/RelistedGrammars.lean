import GrammarSearch.Proofs.LexicalScoping
import GrammarSearch.Proofs.RuleAddresses
import Mathlib.Data.List.Forall2
import Mathlib.Data.List.Nodup

/-!
# Grammars listed in another order

A repository is a table by name, and the order in which its entries are listed is nobody's business.
`GrammarSource.Relisted` holds of two grammars that differ in nothing else, at any depth: lists of
rules agree place by place, repositories name by name.

Both have the same addresses, though in another order (`GrammarSource.Relisted.addresses_perm`), and
no address twice.  What counts in one of them counts in the other, with the same names around it,
and whether an include means anything depends on these names only.  So if all includes of one mean
something, those of the other do too (`GrammarSource.Relisted.exists_means`).
-/

namespace GrammarSearch

/-- A rule without those inside it. -/
def RuleSource.bare (source : RuleSource) : RuleSource :=
  { source with patterns := [], repository := [] }

theorem RuleSource.includes_of_bare_eq {first second : RuleSource}
    (hBare : first.bare = second.bare) : first.includes = second.includes := by
  show first.bare.includes = second.bare.includes
  rw [hBare]

/-- A grammar without its rules. -/
def GrammarSource.bare (source : GrammarSource) : GrammarSource :=
  { source with patterns := [], repository := [], injections := [] }

/-- Two rules that differ at most in the order in which the repositories in them are listed. -/
inductive RuleSource.Relisted : RuleSource → RuleSource → Prop
  | intro {first second : RuleSource} (hBare : first.bare = second.bare)
      (hLength : first.patterns.length = second.patterns.length)
      (hPatterns : ∀ left right, (left, right) ∈ first.patterns.zip second.patterns →
        Relisted left right)
      (hDistinct : (first.repository.map Prod.fst).Nodup)
      (hNames : (first.repository.map Prod.fst).Perm (second.repository.map Prod.fst))
      (hEntries : ∀ name left right, (name, left) ∈ first.repository →
        (name, right) ∈ second.repository → Relisted left right) :
      Relisted first second

/-- Two repositories and two lists of rules that agree but for the order in which repositories are
listed, at any depth: what is true of two rules is true of those of one place and of one name. -/
structure BodyRelated (related : RuleSource → RuleSource → Prop) (first second : Table RuleSource)
    (sources others : List RuleSource) : Prop where
  listed : List.Forall₂ related sources others
  distinct : (first.map Prod.fst).Nodup
  names : (first.map Prod.fst).Perm (second.map Prod.fst)
  entries : ∀ name left right, (name, left) ∈ first → (name, right) ∈ second → related left right

/-- Two grammars that differ at most in the order in which their repositories and those of their
rules are listed. -/
structure GrammarSource.Relisted (first second : GrammarSource) : Prop where
  bare_eq : first.bare = second.bare
  patterns : List.Forall₂ RuleSource.Relisted first.patterns second.patterns
  injections : List.Forall₂ (fun left right => left.1 = right.1 ∧ left.2.Relisted right.2)
    first.injections second.injections
  distinct : (first.repository.map Prod.fst).Nodup
  names : (first.repository.map Prod.fst).Perm (second.repository.map Prod.fst)
  entries : ∀ name left right, (name, left) ∈ first.repository →
    (name, right) ∈ second.repository → left.Relisted right

/-- A list that is related to another place by place has a partner for each of its members. -/
theorem exists_related_of_mem {α β : Type} {related : α → β → Prop} {lefts : List α}
    {rights : List β} (h : List.Forall₂ related lefts rights) {left : α} (hMem : left ∈ lefts) :
    ∃ right ∈ rights, related left right := by
  induction h with
  | nil => exact absurd hMem List.not_mem_nil
  | cons hHead _ ih =>
    rcases List.mem_cons.1 hMem with rfl | hMem
    · exact ⟨_, List.mem_cons_self, hHead⟩
    · obtain ⟨right, hRight, hRelated⟩ := ih hMem
      exact ⟨right, List.mem_cons_of_mem _ hRight, hRelated⟩

theorem exists_getLast? {α β : Type} {related : α → β → Prop} {lefts : List α} {rights : List β}
    (h : List.Forall₂ related lefts rights) {left : α} (hLast : lefts.getLast? = some left) :
    ∃ right, rights.getLast? = some right ∧ related left right := by
  have hReversed := List.forall₂_reverse_iff.2 h
  rw [← List.head?_reverse] at hLast
  obtain ⟨rest, hRest⟩ := List.head?_eq_some_iff.1 hLast
  rw [hRest] at hReversed
  obtain ⟨right, others, hHead, -, hOthers⟩ := List.forall₂_cons_left_iff.1 hReversed
  refine ⟨right, ?_, hHead⟩
  rw [← List.head?_reverse, hOthers]
  rfl

namespace BodyRelated

variable {related : RuleSource → RuleSource → Prop} {first second : Table RuleSource}
variable {sources others : List RuleSource}

theorem mono (h : BodyRelated related first second sources others)
    {weaker : RuleSource → RuleSource → Prop}
    (hWeaker : ∀ left right, related left right → weaker left right) :
    BodyRelated weaker first second sources others where
  listed := h.listed.imp hWeaker
  distinct := h.distinct
  names := h.names
  entries name left right hLeft hRight :=
    hWeaker left right (h.entries name left right hLeft hRight)

theorem flip (h : BodyRelated related first second sources others) :
    BodyRelated (fun left right => related right left) second first others sources where
  listed := List.Forall₂.flip h.listed
  distinct := h.names.nodup_iff.1 h.distinct
  names := h.names.symm
  entries name left right hLeft hRight := h.entries name right left hRight hLeft

/-- A repository whose entries are changed one by one and then listed in another order. -/
theorem of_perm (hListed : List.Forall₂ related sources others)
    (hDistinct : (first.map Prod.fst).Nodup) {changed : Table RuleSource}
    (hChanged : List.Forall₂ (fun left right => left.1 = right.1 ∧ related left.2 right.2) first
      changed) (hPerm : changed.Perm second) : BodyRelated related first second sources others := by
  have hSame : first.map Prod.fst = changed.map Prod.fst := by
    rw [← List.forall₂_eq_eq_eq, List.forall₂_map_left_iff, List.forall₂_map_right_iff]
    exact hChanged.imp fun _ _ hBoth => hBoth.1
  refine ⟨hListed, hDistinct, hSame ▸ hPerm.map Prod.fst, fun name left right hLeft hRight => ?_⟩
  obtain ⟨⟨_, other⟩, hOther, rfl, hRelated⟩ := exists_related_of_mem hChanged hLeft
  have hEntry := List.inj_on_of_nodup_map (hSame ▸ hDistinct) hOther (hPerm.symm.subset hRight) rfl
  cases hEntry
  exact hRelated

/-- Every entry has one of its name on the other side. -/
theorem exists_entry (h : BodyRelated related first second sources others) {name : String}
    {left : RuleSource} (hMem : (name, left) ∈ first) :
    ∃ right, (name, right) ∈ second ∧ related left right := by
  have hName : name ∈ second.map Prod.fst :=
    h.names.subset (List.mem_map_of_mem (f := Prod.fst) hMem)
  obtain ⟨entry, hEntry, rfl⟩ := List.mem_map.1 hName
  exact ⟨entry.2, hEntry, h.entries entry.1 left entry.2 hMem hEntry⟩

end BodyRelated

namespace RuleSource.Relisted

variable {first second : RuleSource}

theorem of_body (hBare : first.bare = second.bare)
    (hBody : BodyRelated Relisted first.repository second.repository first.patterns
      second.patterns) : first.Relisted second := by
  obtain ⟨hLength, hPatterns⟩ := List.forall₂_iff_zip.1 hBody.listed
  exact .intro hBare hLength (fun left right hMem => hPatterns hMem) hBody.distinct hBody.names
    hBody.entries

/-- Without rules inside it a rule can be listed in one order only. -/
theorem of_leaf {source : RuleSource} (hPatterns : source.patterns = [])
    (hRepository : source.repository = []) : source.Relisted source := by
  refine of_body rfl ?_
  rw [hPatterns, hRepository]
  exact BodyRelated.of_perm .nil List.nodup_nil .nil (.refl _)

/-- An induction over two rules at once, with what holds of the rules in them. -/
theorem induction {motive : RuleSource → RuleSource → Prop}
    (hStep : ∀ first second : RuleSource, first.bare = second.bare →
      BodyRelated (fun left right => left.Relisted right ∧ motive left right) first.repository
        second.repository first.patterns second.patterns → motive first second)
    (h : first.Relisted second) : motive first second := by
  induction h with
  | intro hBare hLength hPatterns hDistinct hNames hEntries ihPatterns ihEntries =>
    refine hStep _ _ hBare ⟨List.forall₂_iff_zip.2 ⟨hLength, fun hMem => ?_⟩, hDistinct, hNames,
      fun name left right hLeft hRight => ?_⟩
    · exact ⟨hPatterns _ _ hMem, ihPatterns _ _ hMem⟩
    · exact ⟨hEntries name left right hLeft hRight, ihEntries name left right hLeft hRight⟩

theorem bare_eq (h : first.Relisted second) : first.bare = second.bare := by
  cases h with
  | intro hBare => exact hBare

theorem includes_eq (h : first.Relisted second) : first.includes = second.includes :=
  includes_of_bare_eq h.bare_eq

theorem body (h : first.Relisted second) :
    BodyRelated Relisted first.repository second.repository first.patterns second.patterns := by
  cases h with
  | intro _ hLength hPatterns hDistinct hNames hEntries =>
    exact ⟨List.forall₂_iff_zip.2 ⟨hLength, fun hMem => hPatterns _ _ hMem⟩, hDistinct, hNames,
      hEntries⟩

theorem symm (h : first.Relisted second) : second.Relisted first := by
  refine induction (motive := fun first second => second.Relisted first) ?_ h
  intro first second hBare hBody
  exact of_body hBare.symm (hBody.flip.mono fun left right hBoth => hBoth.2)

end RuleSource.Relisted

namespace GrammarSource.Relisted

variable {first second : GrammarSource}

theorem symm (h : first.Relisted second) : second.Relisted first where
  bare_eq := h.bare_eq.symm
  patterns := List.Forall₂.flip (h.patterns.imp fun _ _ hBoth => hBoth.symm)
  injections :=
    List.Forall₂.flip (h.injections.imp fun _ _ hBoth => ⟨hBoth.1.symm, hBoth.2.symm⟩)
  distinct := h.names.nodup_iff.1 h.distinct
  names := h.names.symm
  entries name left right hLeft hRight := (h.entries name right left hRight hLeft).symm

end GrammarSource.Relisted

/-! ## Addresses -/

section

variable {first second : Table RuleSource} {sources others : List RuleSource}

theorem mem_insideEntries_iff {repository : Table RuleSource} {address : RuleAddress} :
    address ∈ insideEntries repository ↔ ∃ name source inner, (name, source) ∈ repository ∧
      inner ∈ source.addresses ∧ address = .entry name :: inner := by
  induction repository with
  | nil => simp [insideEntries]
  | cons entry repository ih =>
    obtain ⟨name, source⟩ := entry
    rw [insideEntries, List.mem_append, ih]
    constructor
    · rintro (hFirst | ⟨other, rule, inner, hMem, hInner, rfl⟩)
      · obtain ⟨inner, hInner, rfl⟩ := List.mem_map.1 hFirst
        exact ⟨name, source, inner, List.mem_cons_self, hInner, rfl⟩
      · exact ⟨other, rule, inner, List.mem_cons_of_mem _ hMem, hInner, rfl⟩
    · rintro ⟨other, rule, inner, hMem, hInner, rfl⟩
      rcases List.mem_cons.1 hMem with hSame | hMem
      · cases hSame
        exact .inl (List.mem_map_of_mem hInner)
      · exact .inr ⟨other, rule, inner, hMem, hInner, rfl⟩

theorem exists_of_mem_insideList {index : Nat} {address : RuleAddress}
    (hMem : address ∈ insideList index sources) :
    ∃ place inner, index ≤ place ∧ address = .listed place :: inner := by
  induction sources generalizing index with
  | nil =>
    rw [insideList] at hMem
    exact absurd hMem List.not_mem_nil
  | cons source sources ih =>
    have hLater (hRest : address ∈ insideList (index + 1) sources) :
        ∃ place inner, index ≤ place ∧ address = .listed place :: inner := by
      obtain ⟨place, inner, hPlace, rfl⟩ := ih hRest
      exact ⟨place, inner, by omega, rfl⟩
    cases hInclude : source.includes with
    | some target =>
      rw [insideList_of_include hInclude] at hMem
      exact hLater hMem
    | none =>
      rw [insideList_of_none hInclude] at hMem
      rcases List.mem_append.1 hMem with hFirst | hRest
      · rcases List.mem_cons.1 hFirst with rfl | hInner
        · exact ⟨index, [], Nat.le_refl _, rfl⟩
        · obtain ⟨inner, -, rfl⟩ := List.mem_map.1 hInner
          exact ⟨index, inner, Nat.le_refl _, rfl⟩
      · exact hLater hRest

theorem mem_bodyAddresses_iff {address : RuleAddress} :
    address ∈ bodyAddresses first sources ↔
      (∃ name ∈ first.map Prod.fst, address = [.entry name]) ∨ address ∈ insideEntries first ∨
        address ∈ insideList 0 sources := by
  rw [bodyAddresses, List.mem_append, List.mem_append, or_assoc]
  simp [entryAddresses, eq_comm]

theorem nil_notMem_bodyAddresses (repository : Table RuleSource) (sources : List RuleSource) :
    [] ∉ bodyAddresses repository sources := by
  rw [mem_bodyAddresses_iff, mem_insideEntries_iff]
  rintro (⟨name, -, hSame⟩ | ⟨name, rule, inner, -, -, hSame⟩ | hMem)
  · contradiction
  · contradiction
  · obtain ⟨place, inner, -, hSame⟩ := exists_of_mem_insideList hMem
    contradiction

/-- No rule is inside itself. -/
theorem nil_notMem_addresses (source : RuleSource) : [] ∉ source.addresses := by
  cases hInclude : source.includes with
  | some target =>
    rw [RuleSource.addresses_of_include hInclude]
    exact List.not_mem_nil
  | none =>
    rw [RuleSource.addresses_of_none hInclude]
    exact nil_notMem_bodyAddresses _ _

theorem mem_insideList_of_related {index : Nat}
    (hListed : List.Forall₂ (fun left right => left.includes = right.includes ∧
      ∀ inner, inner ∈ left.addresses ↔ inner ∈ right.addresses) sources others)
    {address : RuleAddress} (hMem : address ∈ insideList index sources) :
    address ∈ insideList index others := by
  induction hListed generalizing index with
  | nil => exact hMem
  | @cons left right lefts rights hHead _ ih =>
    obtain ⟨hIncludes, hInside⟩ := hHead
    cases hInclude : left.includes with
    | some target =>
      rw [insideList_of_include hInclude] at hMem
      rw [insideList_of_include (hIncludes.symm.trans hInclude)]
      exact ih hMem
    | none =>
      rw [insideList_of_none hInclude] at hMem
      rw [insideList_of_none (hIncludes.symm.trans hInclude)]
      rcases List.mem_append.1 hMem with hFirst | hRest
      · refine List.mem_append_left _ ?_
        rcases List.mem_cons.1 hFirst with rfl | hInner
        · exact List.mem_cons_self
        · obtain ⟨inner, hLeft, rfl⟩ := List.mem_map.1 hInner
          exact List.mem_cons_of_mem _ (List.mem_map_of_mem ((hInside inner).1 hLeft))
      · exact List.mem_append_right _ (ih hRest)

/-- Addresses do not depend on the order of a repository. -/
theorem mem_bodyAddresses_of_related
    (hBody : BodyRelated (fun left right => left.includes = right.includes ∧
      ∀ inner, inner ∈ left.addresses ↔ inner ∈ right.addresses) first second sources others)
    {address : RuleAddress} (hMem : address ∈ bodyAddresses first sources) :
    address ∈ bodyAddresses second others := by
  rw [mem_bodyAddresses_iff] at hMem ⊢
  rcases hMem with ⟨name, hName, rfl⟩ | hInside | hListed
  · exact .inl ⟨name, hBody.names.subset hName, rfl⟩
  · obtain ⟨name, source, inner, hEntry, hInner, rfl⟩ := mem_insideEntries_iff.1 hInside
    obtain ⟨other, hOther, -, hSame⟩ := hBody.exists_entry hEntry
    exact .inr (.inl (mem_insideEntries_iff.2
      ⟨name, other, inner, hOther, (hSame inner).1 hInner, rfl⟩))
  · exact .inr (.inr (mem_insideList_of_related hBody.listed hListed))

theorem nodup_insideEntries {repository : Table RuleSource}
    (hDistinct : (repository.map Prod.fst).Nodup)
    (hInside : ∀ name source, (name, source) ∈ repository → source.addresses.Nodup) :
    (insideEntries repository).Nodup := by
  induction repository with
  | nil =>
    rw [insideEntries]
    exact List.nodup_nil
  | cons entry repository ih =>
    obtain ⟨name, source⟩ := entry
    obtain ⟨hFirst, hRest⟩ := List.nodup_cons.1 hDistinct
    rw [insideEntries, List.nodup_append]
    refine ⟨(hInside name source List.mem_cons_self).map (List.cons_injective), ih hRest
      fun other rule hMem => hInside other rule (List.mem_cons_of_mem _ hMem), ?_⟩
    rintro here hHere there hThere rfl
    obtain ⟨inner, -, rfl⟩ := List.mem_map.1 hHere
    obtain ⟨other, rule, outer, hMem, -, hSame⟩ := mem_insideEntries_iff.1 hThere
    cases hSame
    exact hFirst (List.mem_map.2 ⟨_, hMem, rfl⟩)

theorem nodup_insideList {index : Nat} (hInside : ∀ source ∈ sources, source.addresses.Nodup) :
    (insideList index sources).Nodup := by
  induction sources generalizing index with
  | nil =>
    rw [insideList]
    exact List.nodup_nil
  | cons source sources ih =>
    obtain ⟨hSource, hSources⟩ := List.forall_mem_cons.1 hInside
    cases hInclude : source.includes with
    | some target =>
      rw [insideList_of_include hInclude]
      exact ih hSources
    | none =>
      rw [insideList_of_none hInclude, List.nodup_append, List.nodup_cons]
      refine ⟨⟨fun hMem => ?_, hSource.map List.cons_injective⟩, ih hSources, ?_⟩
      · obtain ⟨inner, hInner, hSame⟩ := List.mem_map.1 hMem
        cases hSame
        exact nil_notMem_addresses source hInner
      · rintro here hHere there hThere rfl
        obtain ⟨place, inner, hPlace, rfl⟩ := exists_of_mem_insideList hThere
        rcases List.mem_cons.1 hHere with hSame | hMem
        · cases hSame
          omega
        · obtain ⟨other, -, hSame⟩ := List.mem_map.1 hMem
          cases hSame
          omega

/-- No two rules have one address. -/
theorem nodup_bodyAddresses
    (hBody : BodyRelated (fun left _ => left.addresses.Nodup) first second sources others) :
    (bodyAddresses first sources).Nodup := by
  have hNames : (entryAddresses first).Nodup := by
    have hMap : entryAddresses first = (first.map Prod.fst).map fun name => [.entry name] := by
      rw [entryAddresses, List.map_map]
      rfl
    rw [hMap]
    refine hBody.distinct.map fun name other hSame => ?_
    cases hSame
    rfl
  have hEntries : (insideEntries first).Nodup := by
    refine nodup_insideEntries hBody.distinct fun name source hMem => ?_
    obtain ⟨_, -, hNodup⟩ := hBody.exists_entry hMem
    exact hNodup
  have hListed : (insideList 0 sources).Nodup := by
    refine nodup_insideList fun source hMem => ?_
    obtain ⟨_, -, hNodup⟩ := exists_related_of_mem hBody.listed hMem
    exact hNodup
  rw [bodyAddresses, List.nodup_append, List.nodup_append]
  refine ⟨⟨hNames, hEntries, ?_⟩, hListed, ?_⟩
  · rintro here hHere there hThere rfl
    obtain ⟨entry, -, rfl⟩ := List.mem_map.1 hHere
    obtain ⟨name, source, inner, -, hInner, hSame⟩ := mem_insideEntries_iff.1 hThere
    cases hSame
    exact nil_notMem_addresses source hInner
  · rintro here hHere there hThere rfl
    obtain ⟨place, inner, -, rfl⟩ := exists_of_mem_insideList hThere
    rcases List.mem_append.1 hHere with hName | hInside
    · obtain ⟨entry, -, hSame⟩ := List.mem_map.1 hName
      cases hSame
    · obtain ⟨name, source, inner, -, -, hSame⟩ := mem_insideEntries_iff.1 hInside
      cases hSame

end

namespace RuleSource.Relisted

variable {first second : RuleSource}

theorem mem_addresses_iff (h : first.Relisted second) (address : RuleAddress) :
    address ∈ first.addresses ↔ address ∈ second.addresses := by
  refine induction (motive := fun first second =>
    ∀ address, address ∈ first.addresses ↔ address ∈ second.addresses) ?_ h address
  intro first second hBare hBody address
  have hInside := hBody.mono fun left right hBoth => And.intro hBoth.1.includes_eq hBoth.2
  have hIncludes : first.includes = second.includes := includes_of_bare_eq hBare
  cases hInclude : first.includes with
  | some target =>
    rw [addresses_of_include hInclude, addresses_of_include (hIncludes.symm.trans hInclude)]
  | none =>
    rw [addresses_of_none hInclude, addresses_of_none (hIncludes.symm.trans hInclude)]
    exact ⟨mem_bodyAddresses_of_related hInside, mem_bodyAddresses_of_related
      (hInside.flip.mono fun left right hSame => ⟨hSame.1.symm, fun inner => (hSame.2 inner).symm⟩)⟩

theorem nodup_addresses (h : first.Relisted second) : first.addresses.Nodup := by
  refine induction (motive := fun first _ => first.addresses.Nodup) ?_ h
  intro first second hBare hBody
  cases hInclude : first.includes with
  | some target =>
    rw [addresses_of_include hInclude]
    exact List.nodup_nil
  | none =>
    rw [addresses_of_none hInclude]
    exact nodup_bodyAddresses (hBody.mono fun left right hBoth => hBoth.2)

end RuleSource.Relisted

namespace GrammarSource.Relisted

variable {first second : GrammarSource}

theorem scopeName_eq (h : first.Relisted second) : first.scopeName = second.scopeName := by
  show first.bare.scopeName = second.bare.scopeName
  rw [h.bare_eq]

theorem injected_eq (h : first.Relisted second) (root : NodeId) (chosen : String → Bool) :
    second.injected root chosen = first.injected root chosen := by
  show second.bare.injected root chosen = first.bare.injected root chosen
  rw [h.bare_eq]

theorem deferred_eq (h : first.Relisted second) (root : NodeId) (roots : Table NodeId) :
    second.deferred root roots = first.deferred root roots := by
  show second.bare.deferred root roots = first.bare.deferred root roots
  rw [h.bare_eq]

theorem selectors_eq (h : first.Relisted second) :
    second.injections.map Prod.fst = first.injections.map Prod.fst := by
  have hSelectors : List.Forall₂ (· = ·) (first.injections.map Prod.fst)
      (second.injections.map Prod.fst) := by
    rw [List.forall₂_map_left_iff, List.forall₂_map_right_iff]
    exact h.injections.imp fun _ _ hBoth => hBoth.1
  exact (List.forall₂_eq_eq_eq ▸ hSelectors).symm

theorem body (h : first.Relisted second) :
    BodyRelated RuleSource.Relisted first.repository second.repository first.body second.body where
  listed := by
    refine List.rel_append h.patterns ?_
    rw [List.forall₂_map_left_iff, List.forall₂_map_right_iff]
    exact h.injections.imp fun _ _ hBoth => hBoth.2
  distinct := h.distinct
  names := h.names
  entries := h.entries

theorem nodup_addresses (h : first.Relisted second) : first.addresses.Nodup :=
  nodup_bodyAddresses (h.body.mono fun _ _ hBoth => hBoth.nodup_addresses)

theorem mem_addresses (h : first.Relisted second) {address : RuleAddress}
    (hMem : address ∈ first.addresses) : address ∈ second.addresses :=
  mem_bodyAddresses_of_related
    (h.body.mono fun _ _ hBoth => ⟨hBoth.includes_eq, hBoth.mem_addresses_iff⟩) hMem

/-- Rules have the same addresses in both grammars, in whatever order. -/
theorem addresses_perm (h : first.Relisted second) : first.addresses.Perm second.addresses :=
  (List.perm_ext_iff_of_nodup h.nodup_addresses h.symm.nodup_addresses).2
    fun _ => ⟨h.mem_addresses, h.symm.mem_addresses⟩

end GrammarSource.Relisted

/-! ## What includes mean -/

/-- Two repositories with the same names. -/
def SameNames {ε δ : Type} (first : Table ε) (second : Table δ) : Prop :=
  (first.map Prod.fst).Perm (second.map Prod.fst)

theorem isSome_lookup_iff {ε : Type} {table : Table ε} {name : String} :
    (table.lookup name).isSome = true ↔ name ∈ table.map Prod.fst := by
  rw [List.lookup_isSome_iff, List.mem_map]
  constructor
  · rintro ⟨entry, hMem, hName⟩
    exact ⟨entry, hMem, (eq_of_beq hName).symm⟩
  · rintro ⟨entry, hMem, rfl⟩
    exact ⟨entry, hMem, beq_self_eq_true _⟩

theorem SameNames.exists_lookup {ε δ : Type} {first : Table ε} {second : Table δ}
    (h : SameNames first second) {name : String} {entry : ε}
    (hEntry : first.lookup name = some entry) : ∃ other, second.lookup name = some other := by
  refine Option.isSome_iff_exists.1 (isSome_lookup_iff.2 (h.subset (isSome_lookup_iff.1 ?_)))
  rw [hEntry]
  rfl

/-- A name that some repository has means its entry in the innermost of those. -/
theorem exists_near {ε : Type} {loaded : List Loaded} {scopeName name : String}
    {around : List (Table ε)} {repository : Table ε} (hMem : repository ∈ around) {entry : ε}
    (hEntry : repository.lookup name = some entry) :
    ∃ meaning, Means loaded scopeName around ("#" ++ name) meaning := by
  have hFound : (around.find? fun table => (table.lookup name).isSome).isSome = true :=
    List.find?_isSome.2 ⟨repository, hMem, by rw [hEntry]; rfl⟩
  obtain ⟨innermost, hInnermost⟩ := Option.isSome_iff_exists.1 hFound
  obtain ⟨hHas, inside, outside, hAround, hHidden⟩ := List.find?_eq_some_iff_append.1 hInnermost
  obtain ⟨found, hLookup⟩ := Option.isSome_iff_exists.1 hHas
  refine ⟨.entry found, .near hAround (fun nearer hNearer => ?_) hLookup⟩
  simpa using hHidden nearer hNearer

/-- Whether an include means anything depends on the names around it only. -/
theorem Means.exists_of_sameNames {ε δ : Type} {loaded : List Loaded} {scopeName target : String}
    {around : List (Table ε)} {others : List (Table δ)} {meaning : Meaning ε}
    (hMeans : Means loaded scopeName around target meaning)
    (hSame : List.Forall₂ SameNames around others) :
    ∃ other, Means loaded scopeName others target other := by
  cases hMeans with
  | self => exact ⟨_, .self⟩
  | base => exact ⟨_, .base⟩
  | @near inside outside repository name entry hAround _ hEntry =>
    have hMem : repository ∈ around := by
      rw [hAround]
      exact List.mem_append_right inside List.mem_cons_self
    obtain ⟨table, hOther, hNames⟩ := exists_related_of_mem hSame hMem
    obtain ⟨other, hLookup⟩ := hNames.exists_lookup hEntry
    exact exists_near hOther hLookup
  | ownEntry hScope hPlain hLast hEntry =>
    obtain ⟨last, hOther, hNames⟩ := exists_getLast? hSame hLast
    obtain ⟨other, hLookup⟩ := hNames.exists_lookup hEntry
    exact ⟨_, .ownEntry hScope hPlain hOther hLookup⟩
  | loadedEntry hScope hPlain hOther hCurrent hEntry =>
    exact ⟨_, .loadedEntry hScope hPlain hOther hCurrent hEntry⟩
  | ownRoot hPlain => exact ⟨_, .ownRoot hPlain⟩
  | loadedRoot hPlain hSelf hBase hOther hCurrent =>
    exact ⟨_, .loadedRoot hPlain hSelf hBase hOther hCurrent⟩

namespace GrammarSource.Relisted

variable {first second : GrammarSource}

/-- What counts in a grammar counts in the other one, with the same names around it. -/
theorem exists_occurs (h : first.Relisted second) {around : List (Table RuleSource)}
    {rule : RuleSource} (hOccurs : first.Occurs around rule) :
    ∃ others other, second.Occurs others other ∧ rule.Relisted other ∧
      List.Forall₂ SameNames around others := by
  have hTop : List.Forall₂ SameNames [first.repository] [second.repository] :=
    .cons h.names .nil
  induction hOccurs with
  | pattern hMem =>
    obtain ⟨other, hOther, hRelisted⟩ := exists_related_of_mem h.patterns hMem
    exact ⟨_, other, .pattern hOther, hRelisted, hTop⟩
  | injection hMem =>
    obtain ⟨other, hOther, -, hRelisted⟩ := exists_related_of_mem h.injections hMem
    exact ⟨_, other.2, .injection hOther, hRelisted, hTop⟩
  | entry hMem =>
    obtain ⟨other, hOther, hRelisted⟩ := h.body.exists_entry hMem
    exact ⟨_, other, .entry hOther, hRelisted, hTop⟩
  | innerPattern _ hOwn hMem ih =>
    obtain ⟨others, outer, hOuter, hRelisted, hSame⟩ := ih
    obtain ⟨other, hOther, hInner⟩ := exists_related_of_mem hRelisted.body.listed hMem
    exact ⟨_, other, .innerPattern hOuter (hRelisted.includes_eq.symm.trans hOwn) hOther, hInner,
      .cons hRelisted.body.names hSame⟩
  | innerEntry _ hOwn hMem ih =>
    obtain ⟨others, outer, hOuter, hRelisted, hSame⟩ := ih
    obtain ⟨other, hOther, hInner⟩ := hRelisted.body.exists_entry hMem
    exact ⟨_, other, .innerEntry hOuter (hRelisted.includes_eq.symm.trans hOwn) hOther, hInner,
      .cons hRelisted.body.names hSame⟩

/-- A grammar whose includes all mean something still does so when it is listed in another order. -/
theorem exists_means (h : first.Relisted second) {loaded : List Loaded}
    (hAll : ∀ around rule target, second.Occurs around rule → rule.includes = some target →
      ∃ meaning, Means loaded second.scopeName around target meaning)
    {around : List (Table RuleSource)} {rule : RuleSource} {target : String}
    (hOccurs : first.Occurs around rule) (hInclude : rule.includes = some target) :
    ∃ meaning, Means loaded first.scopeName around target meaning := by
  obtain ⟨others, other, hOther, hRelisted, hSame⟩ := h.exists_occurs hOccurs
  obtain ⟨meaning, hMeans⟩ :=
    hAll others other target hOther (hRelisted.includes_eq.symm.trans hInclude)
  rw [h.scopeName_eq]
  refine hMeans.exists_of_sameNames (List.Forall₂.flip (hSame.imp fun left right hNames => ?_))
  exact hNames.symm

end GrammarSource.Relisted

end GrammarSearch
