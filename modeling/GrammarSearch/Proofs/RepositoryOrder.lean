import GrammarSearch.Proofs.ClosedTrees
import GrammarSearch.Proofs.RenumberedRules
import GrammarSearch.Rule.Numbering
import Mathlib.Logic.Equiv.Defs

/-!
# The order of repositories

Compiling takes places in the order in which repositories list their entries, so handles depend on
that order.  A grammar that is listed in another order fails or goes through as before, and in the
latter case a renaming of handles carries the rules of the grammar and all tables
(`Builder.adding_ignores_repository_order`).  It carries the rules that were there too, apart from
those that were given a handle which no rule had yet: such a rule sees which entry gets the handle
(`Builder.repository_order_shows_through_early_child`).

The renaming takes the place of each address in one listing to its place in the other
(`readdress`).  It leaves the rules that were there and the root alone, and so everything that the
tables of a builder refer to.  Therefore it carries what the includes of the grammar refer to
(`Builder.TablesClosed.renumbered_scoping`), what is compiled behind the root
(`Builder.compiled_relisted`), and the root with what is injected into it (`Builder.carries_root`).
-/

namespace GrammarSearch

/-! ## New handles -/

/-- Moves what has a place in one list of addresses to its place in another one. -/
def readdress (root : NodeId) (listed others : List RuleAddress) (node : NodeId) : NodeId :=
  if root.index < node.index then
    match listed[node.index - (root.index + 1)]? with
    | some address => placesBehind root others address
    | none => node
  else node

section

variable {root node : NodeId} {listed others : List RuleAddress}

theorem readdress_of_le (hNode : node.index ≤ root.index) :
    readdress root listed others node = node :=
  if_neg (Nat.not_lt.2 hNode)

theorem readdress_of_ge (hNode : root.index + 1 + listed.length ≤ node.index) :
    readdress root listed others node = node := by
  have hNone : listed[node.index - (root.index + 1)]? = none :=
    List.getElem?_eq_none (by omega)
  rw [readdress, if_pos (by omega), hNone]

theorem readdress_placesBehind (hSame : listed.Perm others) (address : RuleAddress) :
    readdress root listed others (placesBehind root listed address) =
      placesBehind root others address := by
  by_cases hNil : address = []
  · rw [placesBehind, placesBehind, if_pos hNil, if_pos hNil]
    exact readdress_of_le (Nat.le_refl _)
  rw [placesBehind, if_neg hNil]
  by_cases hMem : address ∈ listed
  · have hThere : listed[listed.idxOf address]? = some address := List.getElem?_idxOf hMem
    have hBehind : root.index < root.index + 1 + listed.idxOf address := by omega
    simp only [readdress, if_pos hBehind, Nat.add_sub_cancel_left, hThere]
  · -- An address that is not listed has the place after all others, on both sides.
    have hNew : address ∉ others := fun h => hMem (hSame.symm.subset h)
    rw [placesBehind, if_neg hNil, List.idxOf_eq_length hMem, List.idxOf_eq_length hNew,
      hSame.length_eq]
    exact readdress_of_ge (Nat.le_of_eq (by rw [hSame.length_eq]))

theorem readdress_readdress (hDistinct : listed.Nodup) (hRoot : [] ∉ listed)
    (hSame : listed.Perm others) (node : NodeId) :
    readdress root others listed (readdress root listed others node) = node := by
  by_cases hOld : node.index ≤ root.index
  · rw [readdress_of_le hOld, readdress_of_le hOld]
  by_cases hBeyond : root.index + 1 + listed.length ≤ node.index
  · rw [readdress_of_ge hBeyond, readdress_of_ge (hSame.length_eq ▸ hBeyond)]
  obtain ⟨address, -, rfl⟩ :=
    exists_placesBehind_eq hDistinct hRoot (Nat.not_le.1 hOld) (Nat.not_le.1 hBeyond)
  rw [readdress_placesBehind hSame, readdress_placesBehind hSame.symm]

end

/-- The renaming of handles that moves the addresses of one list to their places in another one. -/
def renumbering (root : NodeId) {listed others : List RuleAddress} (hDistinct : listed.Nodup)
    (hRoot : [] ∉ listed) (hSame : listed.Perm others) : Equiv.Perm NodeId where
  toFun := readdress root listed others
  invFun := readdress root others listed
  left_inv := readdress_readdress hDistinct hRoot hSame
  right_inv := readdress_readdress (hSame.nodup_iff.1 hDistinct)
    (fun h => hRoot (hSame.symm.subset h)) hSame.symm

/-! ## What a renaming leaves alone -/

section

variable {rename : NodeId → NodeId}

theorem map_eq_self {α : Type} {change : α → α} {values : List α}
    (hSame : ∀ value ∈ values, change value = value) : values.map change = values :=
  (List.map_congr_left hSame).trans (List.map_id' values)

theorem Table.mapValues_eq_self {ε : Type} {change : ε → ε} {table : Table ε}
    (hSame : ∀ entry ∈ table, change entry.2 = entry.2) : table.mapValues change = table :=
  map_eq_self fun entry hMem => by rw [hSame entry hMem]

theorem Injection.renumber_eq_self {injection : Injection}
    (hTarget : rename injection.target = injection.target) :
    injection.renumber rename = injection := by
  rw [renumber, hTarget]

theorem Rule.renumber_eq_self {rule : Rule}
    (hFixes : ∀ node ∈ Numbering.successors rule, rename node = node) :
    rule.renumber rename = rule := by
  have hChildren : rule.children.map rename = rule.children :=
    map_eq_self fun child hMem => hFixes child (List.mem_append_left _ hMem)
  have hInjections : rule.injections.map (Injection.renumber rename) = rule.injections :=
    map_eq_self fun injection hMem => Injection.renumber_eq_self
      (hFixes _ (List.mem_append_right _ (List.mem_map_of_mem hMem)))
  rw [renumber, hChildren, hInjections]

theorem Rule.renumber_addInjections (rule : Rule) (injections : List Injection) :
    (rule.addInjections injections).renumber rename =
      (rule.renumber rename).addInjections (injections.map (Injection.renumber rename)) := by
  simp [addInjections, renumber]

end

/-! ## Adding in two orders -/

namespace Builder

open Compilation

variable {builder after newAfter : Builder} {first second : GrammarSource} {root : NodeId}
variable {rename : NodeId → NodeId}

/-- What a grammar injects refers to its root only. -/
theorem injected_fixed (hRoot : rename root = root) (chosen : String → Bool) :
    (first.injected root chosen).map (Injection.renumber rename) = first.injected root chosen := by
  refine map_eq_self fun injection hMem => Injection.renumber_eq_self ?_
  rw [GrammarSource.target_of_mem_injected hMem, hRoot]

/-- A renaming that leaves rules alone which were there, as well as the root, and carries a
repository, carries what includes refer to. -/
theorem TablesClosed.renumbered_scoping (h : builder.TablesClosed)
    (hName : first.scopeName = second.scopeName)
    (hFixes : ∀ node : NodeId, node.index ≤ builder.rules.size → rename node = node)
    (hOwn : ∀ name, (builder.scoping second).own.lookup name =
      ((builder.scoping first).own.lookup name).map rename) :
    (builder.scoping first).Renumbered rename (builder.scoping second) := by
  intro target
  rcases h.resolve?_cases first.scopeName target with hRoot | ⟨name, hSame⟩ | ⟨found, hOld, hSame⟩
  · rw [hRoot first rfl, hRoot second hName.symm, Option.map_some,
      hFixes ⟨builder.rules.size⟩ (Nat.le_refl _)]
  · rw [hSame first rfl, hSame second hName.symm, hOwn]
  · rw [hSame first rfl, hSame second hName.symm]
    cases found with
    | none => rfl
    | some node => rw [Option.map_some, hFixes node (Nat.le_of_lt (hOld node rfl))]

/-- The repository of a grammar has the places of its addresses. -/
theorem own_scoping (builder : Builder) (hDistinct : first.addresses.Nodup) :
    (builder.scoping first).own =
      placedEntries (placesBehind ⟨builder.rules.size⟩ first.addresses) [] first.repository := by
  have hNumbers : Numbers (placesBehind ⟨builder.rules.size⟩ first.addresses) []
      (builder.rules.size + 1) first.addresses :=
    numbers_placesBehind hDistinct (nil_notMem_bodyAddresses _ _)
  exact entryHandles_eq (numbers_append.1 (numbers_append.1 hNumbers).1).1

/-- So the names of a repository have the same places, but for the order. -/
theorem own_renumbered (builder : Builder) (hRelisted : first.Relisted second)
    (hPlaces : ∀ address, rename (placesBehind ⟨builder.rules.size⟩ first.addresses address) =
      placesBehind ⟨builder.rules.size⟩ second.addresses address) (name : String) :
    (builder.scoping second).own.lookup name =
      ((builder.scoping first).own.lookup name).map rename := by
  rw [own_scoping builder hRelisted.nodup_addresses,
    own_scoping builder hRelisted.symm.nodup_addresses]
  exact lookup_placedEntries_renumber hPlaces [] hRelisted.names name

/-- A grammar that goes through has its root and one place for every address behind the rules that
were there. -/
theorem places_of_addGrammar_ok (hAdd : builder.addGrammar first = (.ok root, after)) :
    root.index = builder.rules.size ∧
      after.rules.size = root.index + 1 + first.addresses.length := by
  obtain ⟨hRoot, rule, compiled, hRun, -⟩ := exists_of_addGrammar_ok hAdd
  refine ⟨congrArg NodeId.index hRoot, ?_⟩
  rw [size_of_addGrammar_ok hRun hAdd, size_of_compileRoot hRun, hRoot]

/-- A renaming of handles behind a root carries one builder to another, apart from the rules that
were there before the root, which are the same. -/
structure RenumberedBehind (rename : NodeId → NodeId) (root : NodeId) (first second : Builder) :
    Prop where
  size_eq : second.rules.size = first.rules.size
  fixed : ∀ node : NodeId, node.index ≤ root.index ∨ first.rules.size ≤ node.index →
    rename node = node
  earlier_eq : ∀ index < root.index, second.rules[index]? = first.rules[index]?
  carried : ∀ node : NodeId, root.index ≤ node.index →
    Carries rename first.rules second.rules node
  roots_eq : second.roots = Table.mapValues rename first.roots
  repositories : ∀ scope, Option.Rel
    (fun repository other => ∀ name, other.lookup name = (repository.lookup name).map rename)
    (first.repositories.lookup scope) (second.repositories.lookup scope)
  pending_eq : second.pending = Table.mapValues (Injection.renumber rename) first.pending

/-- What a builder has at a handle does not refer to anything between two places. -/
def RefersOutside (builder : Builder) (low high : Nat) (node : NodeId) : Prop :=
  ∀ rule, builder.rules[node.index]? = some rule →
    ∀ other ∈ Numbering.successors rule, other.index ≤ low ∨ high ≤ other.index

theorem Closed.refersOutside (h : builder.Closed) (high : Nat) (node : NodeId) :
    builder.RefersOutside builder.rules.size high node := by
  intro rule hRule other hMem
  obtain ⟨hChildren, hTargets⟩ := h.rules_closed node.index rule hRule
  rcases List.mem_append.1 hMem with hChild | hTarget
  · exact .inl (Nat.le_of_lt (hChildren other hChild))
  · obtain ⟨injection, hInjection, rfl⟩ := List.mem_map.1 hTarget
    exact .inl (Nat.le_of_lt (hTargets injection hInjection))

section

variable {loaded : List Loaded} (hAgrees : builder.Agrees loaded) (hClosed : builder.TablesClosed)
variable (hRelisted : first.Relisted second)
variable (hAdd : builder.addGrammar first = (.ok root, after))
variable (hNewAdd : builder.addGrammar second = (.ok root, newAfter))
variable (hFixes : ∀ node : NodeId, node.index ≤ root.index → rename node = node)

include hRelisted hAdd hNewAdd

theorem roots_relisted : newAfter.roots = after.roots := by
  rw [(tables_of_addGrammar_ok hAdd).1, (tables_of_addGrammar_ok hNewAdd).1, hRelisted.scopeName_eq]

theorem pending_relisted : newAfter.pending = after.pending := by
  rw [pending_of_addGrammar_ok hAdd, pending_of_addGrammar_ok hNewAdd,
    roots_relisted hRelisted hAdd hNewAdd, hRelisted.deferred_eq, hRelisted.scopeName_eq]

/-- Rules that were there gain the same injections. -/
theorem earlier_rules_relisted {index : Nat} (hIndex : index < root.index) :
    newAfter.rules[index]? = after.rules[index]? := by
  have hOld : index < builder.rules.size := by
    rwa [(exists_of_addGrammar_ok hAdd).1] at hIndex
  rw [earlier_rules_of_addGrammar_ok hAdd hOld, earlier_rules_of_addGrammar_ok hNewAdd hOld]
  simp only [hRelisted.injected_eq, hRelisted.scopeName_eq]

include hClosed hFixes

theorem roots_renumbered : newAfter.roots = Table.mapValues rename after.roots := by
  obtain ⟨hRoot, -⟩ := places_of_addGrammar_ok hAdd
  rw [roots_relisted hRelisted hAdd hNewAdd]
  refine (Table.mapValues_eq_self fun entry hMem => hFixes entry.2 ?_).symm
  rw [(tables_of_addGrammar_ok hAdd).1] at hMem
  rcases Table.mem_put hMem with rfl | hOld
  · exact Nat.le_refl _
  · have hBelow := hClosed.roots_closed _ _ hOld
    omega

theorem pending_renumbered :
    newAfter.pending = Table.mapValues (Injection.renumber rename) after.pending := by
  obtain ⟨hRoot, -⟩ := places_of_addGrammar_ok hAdd
  rw [pending_relisted hRelisted hAdd hNewAdd]
  refine (Table.mapValues_eq_self fun entry hMem =>
    Injection.renumber_eq_self (hFixes _ ?_)).symm
  rw [pending_of_addGrammar_ok hAdd] at hMem
  rcases List.mem_append.1 (List.mem_filter.1 hMem).1 with hOld | hNew
  · have hBelow := hClosed.pending_closed _ _ hOld
    omega
  · rw [GrammarSource.target_of_mem_deferred hNew]

theorem repositories_renumbered
    (hOwn : ∀ name, (builder.scoping second).own.lookup name =
      ((builder.scoping first).own.lookup name).map rename) (scope : String) :
    Option.Rel
      (fun repository other => ∀ name, other.lookup name = (repository.lookup name).map rename)
      (after.repositories.lookup scope) (newAfter.repositories.lookup scope) := by
  obtain ⟨hRoot, -⟩ := places_of_addGrammar_ok hAdd
  rw [(tables_of_addGrammar_ok hAdd).2.1, (tables_of_addGrammar_ok hNewAdd).2.1, Table.lookup_put,
    Table.lookup_put, hRelisted.scopeName_eq]
  split
  · refine .some ?_
    obtain rfl : root = ⟨builder.rules.size⟩ := congrArg NodeId.mk hRoot
    exact hOwn
  · cases hFound : builder.repositories.lookup scope with
    | none => exact .none
    | some repository =>
      refine .some fun name => ?_
      cases hEntry : repository.lookup name with
      | none => rfl
      | some node =>
        have hBelow := hClosed.repositories_closed _ _ (Table.mem_of_lookup hFound) _ _
          (Table.mem_of_lookup hEntry)
        rw [Option.map_some, hFixes node (by omega)]

/-- The root is carried, with what was injected into it. -/
theorem carries_root {rule newRule : Rule} {compiled newCompiled : Builder}
    (hRun : (compileRoot (builder.scoping first) first).run.run builder = (.ok rule, compiled))
    (hNewRun : (compileRoot (builder.scoping second) second).run.run builder =
      (.ok newRule, newCompiled)) (hRule : newRule = rule.renumber rename) :
    Carries rename after.rules newAfter.rules root := by
  have hWaiting : (builder.waiting first.scopeName).map (Injection.renumber rename) =
      builder.waiting first.scopeName := by
    refine map_eq_self fun injection hMem => Injection.renumber_eq_self (hFixes _ ?_)
    have hOld := hClosed.pending_closed _ _ (mem_waiting_iff.1 hMem)
    obtain ⟨rfl, -⟩ := exists_of_addGrammar_ok hAdd
    exact Nat.le_of_lt hOld
  have hRoot := hFixes root (Nat.le_refl _)
  rw [Carries, hRoot, root_of_addGrammar_ok hRun hAdd, root_of_addGrammar_ok hNewRun hNewAdd,
    Option.map_some, Rule.renumber_addInjections, List.map_append, injected_fixed hRoot, hWaiting,
    hRule, hRelisted.injected_eq, roots_relisted hRelisted hAdd hNewAdd, hRelisted.scopeName_eq]

include hAgrees

/-- Compiling gives the same, but for the places. -/
theorem compiled_relisted
    (hPlaces : ∀ address, rename (placesBehind root first.addresses address) =
      placesBehind root second.addresses address)
    {rule newRule : Rule} {compiled newCompiled : Builder}
    (hRun : (compileRoot (builder.scoping first) first).run.run builder = (.ok rule, compiled))
    (hNewRun : (compileRoot (builder.scoping second) second).run.run builder =
      (.ok newRule, newCompiled)) :
    newRule = rule.renumber rename ∧
      ∀ address ∈ first.addresses,
        Carries rename after.rules newAfter.rules (placesBehind root first.addresses address) := by
  obtain ⟨rfl, -⟩ := exists_of_addGrammar_ok hAdd
  obtain ⟨hEntries, children, targets, hLength, hList, rfl⟩ := placed_of_compileRoot hRun
    (numbers_placesBehind hRelisted.nodup_addresses (nil_notMem_bodyAddresses _ _))
    fun index h => hAgrees.rules_of_addGrammar_ok hRun hAdd h.1
  obtain ⟨hNewEntries, newChildren, newTargets, hNewLength, hNewList, rfl⟩ :=
    placed_of_compileRoot hNewRun
      (numbers_placesBehind hRelisted.symm.nodup_addresses (nil_notMem_bodyAddresses _ _))
      fun index h => hAgrees.rules_of_addGrammar_ok hNewRun hNewAdd h.1
  have hScoping := hClosed.renumbered_scoping hRelisted.scopeName_eq hFixes
    (own_renumbered builder hRelisted hPlaces)
  have hBody := hRelisted.body.mono fun left right hBoth =>
    hBoth.carries after.rules newAfter.rules hPlaces
  obtain ⟨hNodes, hCarries⟩ :=
    carries_body hPlaces hScoping hBody hEntries hNewEntries hList hNewList
  -- The patterns and the injected rules were carried as one list, which is cut at the same place.
  rw [List.map_append] at hNodes
  obtain ⟨hChildren, hTargets⟩ := List.append_inj hNodes (by
    rw [List.length_map, hLength, hNewLength, hRelisted.patterns.length_eq])
  refine ⟨?_, hCarries⟩
  rw [hChildren, hTargets, hRelisted.selectors_eq, ← hRelisted.scopeName_eq, Rule.renumber,
    List.map_zipWith, List.zipWith_map_right]
  rfl

end

/-- A grammar that goes through in two listings gives the same, but for the order of the handles
behind its root. -/
theorem renumberedBehind_of_relisted {loaded : List Loaded} (hAgrees : builder.Agrees loaded)
    (hClosed : builder.TablesClosed) (hRelisted : first.Relisted second)
    (hAdd : builder.addGrammar first = (.ok root, after))
    (hNewAdd : builder.addGrammar second = (.ok root, newAfter)) :
    after.RenumberedBehind (readdress root first.addresses second.addresses) root newAfter := by
  have hSame := hRelisted.addresses_perm
  obtain ⟨hRoot, hSize⟩ := places_of_addGrammar_ok hAdd
  obtain ⟨-, hNewSize⟩ := places_of_addGrammar_ok hNewAdd
  rw [← hSame.length_eq, ← hSize] at hNewSize
  have hFixes (node : NodeId) (hNode : node.index ≤ root.index) :
      readdress root first.addresses second.addresses node = node := readdress_of_le hNode
  have hBeyond (node : NodeId) (hNode : after.rules.size ≤ node.index) :
      readdress root first.addresses second.addresses node = node :=
    readdress_of_ge (hSize ▸ hNode)
  obtain ⟨-, rule, compiled, hRun, -⟩ := exists_of_addGrammar_ok hAdd
  obtain ⟨-, newRule, newCompiled, hNewRun, -⟩ := exists_of_addGrammar_ok hNewAdd
  obtain ⟨hRule, hCompiled⟩ := compiled_relisted hAgrees hClosed hRelisted hAdd hNewAdd hFixes
    (readdress_placesBehind hSame) hRun hNewRun
  refine ⟨hNewSize, fun node hNode => hNode.elim (hFixes node) (hBeyond node),
    fun index => earlier_rules_relisted hRelisted hAdd hNewAdd, fun node hNode => ?_,
    roots_renumbered hClosed hRelisted hAdd hNewAdd hFixes,
    repositories_renumbered hClosed hRelisted hAdd hNewAdd hFixes ?_,
    pending_renumbered hClosed hRelisted hAdd hNewAdd hFixes⟩
  · rcases Nat.eq_or_lt_of_le hNode with hHere | hBehind
    · obtain rfl : root = node := congrArg NodeId.mk hHere
      exact carries_root hClosed hRelisted hAdd hNewAdd hFixes hRun hNewRun hRule
    by_cases hInside : node.index < after.rules.size
    · obtain ⟨address, hMem, rfl⟩ := exists_placesBehind_eq hRelisted.nodup_addresses
        (nil_notMem_bodyAddresses _ _) hBehind (hSize ▸ hInside)
      exact hCompiled address hMem
    · have hOut : after.rules.size ≤ node.index := Nat.not_lt.1 hInside
      rw [Carries, hBeyond node hOut, Array.getElem?_eq_none hOut,
        Array.getElem?_eq_none (hNewSize ▸ hOut)]
      rfl
  · obtain rfl : root = ⟨builder.rules.size⟩ := congrArg NodeId.mk hRoot
    exact own_renumbered builder hRelisted (readdress_placesBehind hSame)

/-- Such a renaming carries every rule but those that were there and refer to a place behind the
root. -/
theorem RenumberedBehind.carries (h : after.RenumberedBehind rename root newAfter)
    (hAdd : builder.addGrammar first = (.ok root, after))
    {node : NodeId} (hOutside : builder.RefersOutside root.index after.rules.size node) :
    Carries rename after.rules newAfter.rules node := by
  by_cases hNew : root.index ≤ node.index
  · exact h.carried node hNew
  have hOld : node.index < root.index := Nat.not_le.1 hNew
  have hThere : node.index < builder.rules.size := (places_of_addGrammar_ok hAdd).1 ▸ hOld
  rw [Carries, h.fixed node (.inl (Nat.le_of_lt hOld)), h.earlier_eq node.index hOld,
    earlier_rules_of_addGrammar_ok hAdd hThere]
  cases hRule : builder.rules[node.index]? with
  | none => rfl
  | some rule =>
    rw [Option.map_some, Option.map_some, Rule.renumber_addInjections,
      Rule.renumber_eq_self fun other hMem => h.fixed other (hOutside rule hRule other hMem),
      injected_fixed (h.fixed root (.inl (Nat.le_refl _)))]

/-- Renamed rules have renamed flags. -/
theorem mayRaisePriority_renumber {node : NodeId}
    (hCarries : ∀ below,
      Relation.ReflTransGen (Rule.IsGroupChild after.rules.toList) node below →
        Carries rename after.rules newAfter.rules below) :
    newAfter.build.mayRaisePriority (rename node) = after.build.mayRaisePriority node := by
  rw [Tree.mayRaisePriority_build, Tree.mayRaisePriority_build]
  refine Rule.flagAt_reachInjections_renumber fun below hBelow => ?_
  rw [Array.getElem?_toList, Array.getElem?_toList]
  exact hCarries below hBelow

/-- If a grammar fails in one listing it does so in another one. -/
theorem fails_of_relisted {loaded : List Loaded} (hAgrees : builder.Agrees loaded)
    (hRelisted : first.Relisted second) {failure : Failure}
    (hAdd : builder.addGrammar first = (.error failure, after)) :
    ∃ target, builder.addGrammar second = (.error (.unresolvedInclude target), builder) := by
  rcases hNewAdd : builder.addGrammar second with ⟨newFailure | newRoot, newAfter⟩
  · obtain ⟨_, _, target, -, -, -, rfl⟩ := hAgrees.lacks hNewAdd
    rw [(eq_of_addGrammar_error hNewAdd).1]
    exact ⟨target, rfl⟩
  · obtain ⟨around, rule, target, hOccurs, hInclude, hNothing, -⟩ := hAgrees.lacks hAdd
    obtain ⟨_, _, _, _, hEmbodies⟩ := hAgrees.exists_embodies hNewAdd
    obtain ⟨meaning, hMeans⟩ := hRelisted.exists_means
      (fun _ _ _ hThere hTarget => hEmbodies.exists_means hThere hTarget) hOccurs hInclude
    exact absurd hMeans (hNothing meaning)

/-- Whatever a host did with a builder, a grammar can be added in any order of its repositories: in
all of them some include refers to nothing, and the builder is left as it was, or in all of them the
grammar goes through, with one root.  Then a renaming of the handles behind the root carries the
builder that one order gives to the builder that another one gives.

A host can make a rule refer to a handle that is given to no rule yet, and such a rule sees which
entry gets the handle.  The renaming carries all other rules, and the flag of whatever comes to no
such rule through groups. -/
theorem adding_ignores_repository_order {loaded : List Loaded} (hBuilt : Built loaded builder)
    (hRelisted : first.Relisted second) :
    ((∃ target, builder.addGrammar first = (.error (.unresolvedInclude target), builder)) ∧
      ∃ target, builder.addGrammar second = (.error (.unresolvedInclude target), builder)) ∨
    ∃ root after newAfter, ∃ rename : Equiv.Perm NodeId,
      builder.addGrammar first = (.ok root, after) ∧
      builder.addGrammar second = (.ok root, newAfter) ∧
      after.RenumberedBehind rename root newAfter ∧
      (∀ node, builder.RefersOutside root.index after.rules.size node →
        Carries rename after.rules newAfter.rules node) ∧
      ∀ node, (∀ below, Relation.ReflTransGen (Rule.IsGroupChild after.rules.toList) node below →
          builder.RefersOutside root.index after.rules.size below) →
        newAfter.build.mayRaisePriority (rename node) = after.build.mayRaisePriority node := by
  have hAgrees := hBuilt.agrees
  rcases hAdd : builder.addGrammar first with ⟨failure | root, after⟩
  · obtain ⟨target, hNewAdd⟩ := fails_of_relisted hAgrees hRelisted hAdd
    rw [← hAdd]
    exact .inl ⟨fails_of_relisted hAgrees hRelisted.symm hNewAdd, target, hNewAdd⟩
  rcases hNewAdd : builder.addGrammar second with ⟨failure | newRoot, newAfter⟩
  · obtain ⟨target, hFails⟩ := fails_of_relisted hAgrees hRelisted.symm hNewAdd
    rw [hAdd] at hFails
    cases hFails
  have hRoots : newRoot = root :=
    (exists_of_addGrammar_ok hNewAdd).1.trans (exists_of_addGrammar_ok hAdd).1.symm
  subst hRoots
  have hRenumbered :=
    renumberedBehind_of_relisted hAgrees hBuilt.tablesClosed hRelisted hAdd hNewAdd
  refine .inr ⟨newRoot, after, newAfter, renumbering newRoot hRelisted.nodup_addresses
    (nil_notMem_bodyAddresses _ _) hRelisted.addresses_perm, rfl, rfl, hRenumbered,
    fun node hOutside => hRenumbered.carries hAdd hOutside, fun node hOutside => ?_⟩
  exact mayRaisePriority_renumber fun below hBelow =>
    hRenumbered.carries hAdd (hOutside below hBelow)

/-- A rule with a repository in some order, which includes an entry of it and one of the grammar. -/
def wordRule (order : Table RuleSource → Table RuleSource) : RuleSource where
  patterns := [{ includes := some "#digit" }, { includes := some "words#letter" }]
  repository := order
    [("letter", { matchPattern := some "x" }), ("digit", { matchPattern := some "0" })]

/-- A grammar with a repository in some order, an injection into itself, and injections into a
grammar of `hostBuilder` and one that is not there yet. -/
def wordGrammar (order : Table RuleSource → Table RuleSource) : GrammarSource where
  scopeName := "words"
  patterns := [{ includes := some "#word" }, { includes := some "host" }]
  repository := order [("word", wordRule order), ("letter", { matchPattern := some "a" })]
  injections := [("comment", { includes := some "#letter" })]
  injectionSelector := some "string"
  injectTo := ["host", "later"]

theorem wordRule_relisted : (wordRule id).Relisted (wordRule List.reverse) := by
  refine .of_body rfl (.of_perm ?_ (by decide) ?_ (List.reverse_perm _).symm)
  · exact .cons (.of_leaf rfl rfl) (.cons (.of_leaf rfl rfl) .nil)
  · exact .cons ⟨rfl, .of_leaf rfl rfl⟩ (.cons ⟨rfl, .of_leaf rfl rfl⟩ .nil)

theorem wordGrammar_relisted : (wordGrammar id).Relisted (wordGrammar List.reverse) := by
  have hLeaf (target : String) :
      RuleSource.Relisted { includes := some target } { includes := some target } :=
    .of_leaf rfl rfl
  have hBody : BodyRelated RuleSource.Relisted (wordGrammar id).repository
      (wordGrammar List.reverse).repository (wordGrammar id).patterns
      (wordGrammar List.reverse).patterns := by
    refine .of_perm (.cons (hLeaf _) (.cons (hLeaf _) .nil)) (by decide) ?_
      (List.reverse_perm _).symm
    exact .cons ⟨rfl, wordRule_relisted⟩ (.cons ⟨rfl, .of_leaf rfl rfl⟩ .nil)
  exact ⟨rfl, hBody.listed, .cons ⟨rfl, hLeaf _⟩ .nil, hBody.distinct, hBody.names, hBody.entries⟩

/-- Two repositories listed backwards: an entry of the grammar and the rule of another one change
places, and a renaming tells which. -/
theorem reversed_repositories_do_not_show :
    hostBuilder.Built [⟨letterGrammar "host" "b", ⟨2⟩⟩, ⟨letterGrammar "host" "a", ⟨0⟩⟩] ∧
    (wordGrammar id).Relisted (wordGrammar List.reverse) ∧
    (hostBuilder.addGrammar (wordGrammar id)).2.rules[6]? =
      some { matchPattern := some ⟨"a"⟩ } ∧
    (hostBuilder.addGrammar (wordGrammar List.reverse)).2.rules[6]? =
      some { children := [⟨7⟩, ⟨5⟩] } ∧
    ∃ rename : Equiv.Perm NodeId,
      (hostBuilder.addGrammar (wordGrammar id)).2.RenumberedBehind rename ⟨4⟩
        (hostBuilder.addGrammar (wordGrammar List.reverse)).2 ∧
      ∀ node, (hostBuilder.addGrammar (wordGrammar List.reverse)).2.build.mayRaisePriority
          (rename node) =
        (hostBuilder.addGrammar (wordGrammar id)).2.build.mayRaisePriority node := by
  have hClosed : hostBuilder.Closed :=
    closed_load [.source (letterGrammar "host" "a"), .source (letterGrammar "host" "b")]
  have hSize : hostBuilder.rules.size = 4 := by decide +kernel
  have hRoot : (hostBuilder.addGrammar (wordGrammar id)).1 = .ok ⟨4⟩ := by decide +kernel
  refine ⟨hostBuilder_built, wordGrammar_relisted, by decide +kernel, by decide +kernel, ?_⟩
  rcases adding_ignores_repository_order hostBuilder_built wordGrammar_relisted with
    ⟨⟨target, hFails⟩, -⟩ | ⟨root, after, newAfter, rename, hAdd, hNewAdd, hRenumbered, -, hFlags⟩
  · rw [hFails] at hRoot
    cases hRoot
  · rw [hAdd] at hRoot
    cases hRoot
    rw [hAdd, hNewAdd]
    refine ⟨rename, hRenumbered, fun node => hFlags node fun below _ => ?_⟩
    show hostBuilder.RefersOutside 4 after.rules.size below
    rw [← hSize]
    exact hClosed.refersOutside _ below

/-- A builder with a grammar of nothing but a root, which a child was given that is not there yet.
-/
def earlyBuilder : Builder where
  rules := #[{ name := some "host", children := [⟨2⟩] }]
  roots := [("host", ⟨0⟩)]
  repositories := [("host", [])]

theorem earlyBuilder_built : earlyBuilder.Built [⟨{ scopeName := "host" }, ⟨0⟩⟩] := by
  have hAdd : ({} : Builder).add (.source { scopeName := "host" }) =
      (.ok ⟨0⟩, (({} : Builder).addGrammar { scopeName := "host" }).2) := rfl
  have hChild : (({} : Builder).addGrammar { scopeName := "host" }).2.addChild ⟨0⟩ ⟨2⟩ =
      .ok earlyBuilder := rfl
  exact .modifyRule (.added .empty rfl hAdd) hChild

/-- A grammar whose root has an injection, with a repository of an entry that includes the root and
one that does not, and with a group around the grammar of `earlyBuilder`. -/
def loopGrammar (order : Table RuleSource → Table RuleSource) : GrammarSource where
  scopeName := "loop"
  patterns := [{ patterns := [{ includes := some "host" }] }]
  repository := order
    [("again", { includes := some "$self" }), ("letter", { matchPattern := some "a" })]
  injections := [("string", { matchPattern := some "b" })]

theorem loopGrammar_relisted : (loopGrammar id).Relisted (loopGrammar List.reverse) := by
  have hGroup : RuleSource.Relisted { patterns := [{ includes := some "host" }] }
      { patterns := [{ includes := some "host" }] } :=
    .of_body rfl (.of_perm (.cons (.of_leaf rfl rfl) .nil) (by decide) .nil (.refl _))
  have hBody : BodyRelated RuleSource.Relisted (loopGrammar id).repository
      (loopGrammar List.reverse).repository (loopGrammar id).patterns
      (loopGrammar List.reverse).patterns := by
    refine .of_perm (.cons hGroup .nil) (by decide) ?_ (List.reverse_perm _).symm
    exact .cons ⟨rfl, .of_leaf rfl rfl⟩ (.cons ⟨rfl, .of_leaf rfl rfl⟩ .nil)
  exact ⟨rfl, hBody.listed, .cons ⟨rfl, .of_leaf rfl rfl⟩ .nil, hBody.distinct, hBody.names,
    hBody.entries⟩

/-- The rule that was there sees which entry gets the handle of its child.  If that is the one that
includes the root, three rules of the grammar reach an injection, and otherwise only two rules of
the builder do.  So no renaming carries the rules or the flags of the grammar. -/
theorem repository_order_shows_through_early_child :
    earlyBuilder.Built [⟨{ scopeName := "host" }, ⟨0⟩⟩] ∧
    (loopGrammar id).Relisted (loopGrammar List.reverse) ∧
    ∃ after newAfter,
      earlyBuilder.addGrammar (loopGrammar id) = (.ok ⟨1⟩, after) ∧
      earlyBuilder.addGrammar (loopGrammar List.reverse) = (.ok ⟨1⟩, newAfter) ∧
      ∀ rename : Equiv.Perm NodeId,
        (¬ ∀ node, Carries rename after.rules newAfter.rules node) ∧
        ¬ ∀ node : NodeId, 1 ≤ node.index →
          newAfter.build.mayRaisePriority (rename node) = after.build.mayRaisePriority node := by
  obtain ⟨after, hAfter⟩ : ∃ after, earlyBuilder.addGrammar (loopGrammar id) = (.ok ⟨1⟩, after) :=
    ⟨_, Prod.ext (by decide +kernel) rfl⟩
  obtain ⟨newAfter, hNewAfter⟩ : ∃ after,
      earlyBuilder.addGrammar (loopGrammar List.reverse) = (.ok ⟨1⟩, after) :=
    ⟨_, Prod.ext (by decide +kernel) rfl⟩
  refine ⟨earlyBuilder_built, loopGrammar_relisted, after, newAfter, hAfter, hNewAfter,
    fun rename => ?_⟩
  replace hAfter : (earlyBuilder.addGrammar (loopGrammar id)).2 = after :=
    congrArg Prod.snd hAfter
  replace hNewAfter : (earlyBuilder.addGrammar (loopGrammar List.reverse)).2 = newAfter :=
    congrArg Prod.snd hNewAfter
  have hThree : after.build.mayRaisePriority ⟨1⟩ = true ∧
      after.build.mayRaisePriority ⟨2⟩ = true ∧ after.build.mayRaisePriority ⟨4⟩ = true := by
    rw [← hAfter]
    decide +kernel
  have hTwo (node : NodeId) (hFlag : newAfter.build.mayRaisePriority node = true) :
      node = ⟨1⟩ ∨ node = ⟨3⟩ := by
    have hFlags : newAfter.build.flags = #[false, true, false, true, false, false] := by
      rw [← hNewAfter]
      decide +kernel
    rw [Tree.mayRaisePriority, hFlags] at hFlag
    obtain ⟨_ | _ | _ | _ | _ | _ | _⟩ := node
    · contradiction
    · exact .inl rfl
    · contradiction
    · exact .inr rfl
    · contradiction
    · contradiction
    · simp at hFlag
  have hFlags : ¬ ∀ node : NodeId, 1 ≤ node.index →
      newAfter.build.mayRaisePriority (rename node) = after.build.mayRaisePriority node := by
    intro hSame
    have hFirst := hTwo _ ((hSame ⟨1⟩ (by decide)).trans hThree.1)
    have hSecond := hTwo _ ((hSame ⟨2⟩ (by decide)).trans hThree.2.1)
    have hThird := hTwo _ ((hSame ⟨4⟩ (by decide)).trans hThree.2.2)
    -- Three handles have no three images among two.
    have hApart (a b : NodeId) (hNe : a ≠ b) : rename a ≠ rename b := rename.injective.ne hNe
    have hA := hApart ⟨1⟩ ⟨2⟩ (by decide)
    have hB := hApart ⟨1⟩ ⟨4⟩ (by decide)
    have hC := hApart ⟨2⟩ ⟨4⟩ (by decide)
    grind
  refine ⟨fun hCarries => hFlags fun node _ => ?_, hFlags⟩
  exact mayRaisePriority_renumber fun below _ => hCarries below

end Builder

end GrammarSearch
