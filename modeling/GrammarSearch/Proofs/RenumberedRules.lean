import GrammarSearch.Proofs.GroupFlags
import GrammarSearch.Proofs.RelistedGrammars
import Mathlib.Logic.Relation

/-!
# Renumbered rules

Two compilations of one rule may put what is inside it to different places.  If a renaming of
handles carries the places of one to those of the other, and what includes refer to as well, then it
carries the rules themselves: every field, the children in their order, the injections in theirs.

`RuleSource.Relisted.carries` shows this for rules that are listed in another order, by induction
over both; the order of a repository shows in the places only.  Flags of groups follow the rules
(`Rule.flagAt_reachInjections_renumber`): a way down through groups to an injection has a renamed
one, and every renamed way comes from one.
-/

namespace GrammarSearch

/-- An injection whose target has another handle. -/
def Injection.renumber (rename : NodeId → NodeId) (injection : Injection) : Injection :=
  { injection with target := rename injection.target }

/-- A rule that refers to other handles. -/
def Rule.renumber (rename : NodeId → NodeId) (rule : Rule) : Rule :=
  { rule with
    children := rule.children.map rename
    injections := rule.injections.map (Injection.renumber rename) }

/-- A renaming carries what stands at a handle among some rules to what stands at its new handle
among others. -/
def Carries (rename : NodeId → NodeId) (rules others : Array Rule) (node : NodeId) : Prop :=
  others[(rename node).index]? = rules[node.index]?.map (Rule.renumber rename)

/-- A renaming carries what includes refer to at one place to what they refer to at another. -/
def Scoping.Renumbered (rename : NodeId → NodeId) (first second : Scoping) : Prop :=
  ∀ target, second.resolve? target = (first.resolve? target).map rename

theorem Scoping.Renumbered.within {rename : NodeId → NodeId} {first second : Scoping}
    (h : first.Renumbered rename second) {repository other : Repository}
    (hEntries : ∀ name, other.lookup name = (repository.lookup name).map rename) :
    (first.within repository).Renumbered rename (second.within other) := by
  intro target
  rcases resolve?_within_cases target with ⟨name, hWithin⟩ | hWithin
  · rw [hWithin, hWithin, hEntries, h target, Option.map_or]
  · rw [hWithin, hWithin, h target]

theorem lookup_placedEntries (place : RuleAddress → NodeId) (outer : RuleAddress)
    (repository : Table RuleSource) (name : String) :
    (placedEntries place outer repository).lookup name =
      if name ∈ repository.map Prod.fst then some (place (outer ++ [.entry name])) else none := by
  induction repository with
  | nil => rfl
  | cons entry repository ih =>
    rw [placedEntries, List.map_cons, List.lookup_cons]
    by_cases hName : name = entry.1
    · subst hName
      have hHere : entry.1 ∈ (entry :: repository).map Prod.fst := List.mem_cons_self
      rw [beq_self_eq_true, if_pos hHere]
    · rw [beq_false_of_ne hName]
      show (placedEntries place outer repository).lookup name = _
      rw [ih]
      simp only [List.map_cons, List.mem_cons, hName, false_or]

section

variable {rename : NodeId → NodeId} {rules others : Array Rule}
variable {place newPlace : RuleAddress → NodeId} {first second : Table RuleSource}
variable {sources listed : List RuleSource} {scoping newScoping : Scoping} {outer : RuleAddress}

/-- Wherever two rules were compiled at one address, a renaming carries them and all that is inside
them. -/
def CarriesRule (rename : NodeId → NodeId) (rules others : Array Rule)
    (place newPlace : RuleAddress → NodeId) (left right : RuleSource) : Prop :=
  left.includes = right.includes ∧
    ∀ ⦃scoping newScoping address⦄, scoping.Renumbered rename newScoping →
      PlacedRule rules place scoping address left →
      PlacedRule others newPlace newScoping address right →
      ∀ inner ∈ [] :: left.addresses, Carries rename rules others (place (address ++ inner))

/-- Lists of rules that are carried have handles that are carried. -/
theorem carries_list (hPlaces : ∀ address, rename (place address) = newPlace address)
    (hScoping : scoping.Renumbered rename newScoping)
    (hListed : List.Forall₂ (CarriesRule rename rules others place newPlace) sources listed)
    {index : Nat} {nodes newNodes : List NodeId}
    (hLeft : PlacedList rules place scoping outer index sources nodes)
    (hRight : PlacedList others newPlace newScoping outer index listed newNodes) :
    newNodes = nodes.map rename ∧
      ∀ inner ∈ insideList index sources, Carries rename rules others (place (outer ++ inner)) := by
  induction hListed generalizing index nodes newNodes with
  | nil =>
    cases hLeft
    cases hRight
    refine ⟨rfl, fun inner hMem => ?_⟩
    rw [insideList] at hMem
    exact absurd hMem List.not_mem_nil
  | cons hHead _ ih =>
    obtain ⟨hIncludes, hCarries⟩ := hHead
    cases hLeft with
    | cons hFirst hRest =>
    cases hRight with
    | cons hNewFirst hNewRest =>
    obtain ⟨rfl, hLater⟩ := ih hRest hNewRest
    -- Both rules include the same, or none does; the mixed cases are contradictory.
    cases hFirst with
    | included hInclude hFound =>
      rw [insideList_of_include hInclude]
      rw [hInclude] at hIncludes
      cases hNewFirst with
      | included hNewInclude hNewFound =>
        cases hIncludes.trans hNewInclude
        rw [hScoping, hFound] at hNewFound
        cases hNewFound
        exact ⟨rfl, hLater⟩
      | own hNewOwn => exact absurd (hIncludes.trans hNewOwn) (Option.some_ne_none _)
    | own hOwn hPlaced =>
      rw [hOwn] at hIncludes
      cases hNewFirst with
      | included hNewInclude =>
        exact absurd (hIncludes.trans hNewInclude).symm (Option.some_ne_none _)
      | own _ hNewPlaced =>
        rw [List.map_cons, hPlaces]
        refine ⟨rfl, fun inner hMem => ?_⟩
        rw [insideList_of_none hOwn] at hMem
        rcases List.mem_append.1 hMem with hHere | hRest
        · have hInside := hCarries hScoping hPlaced hNewPlaced
          rcases List.mem_cons.1 hHere with rfl | hDeeper
          · have hSelf := hInside [] List.mem_cons_self
            rwa [List.append_nil] at hSelf
          · obtain ⟨deeper, hOwnInside, rfl⟩ := List.mem_map.1 hDeeper
            have hThere := hInside deeper (List.mem_cons_of_mem _ hOwnInside)
            rwa [List.append_assoc] at hThere
        · exact hLater inner hRest

/-- Repositories and lists of rules that are carried have handles and rules that are carried. -/
theorem carries_body (hPlaces : ∀ address, rename (place address) = newPlace address)
    (hScoping : scoping.Renumbered rename newScoping)
    (hBody : BodyRelated (CarriesRule rename rules others place newPlace) first second sources
      listed)
    (hLeft : ∀ name source, (name, source) ∈ first →
      PlacedRule rules place scoping (outer ++ [.entry name]) source)
    (hRight : ∀ name source, (name, source) ∈ second →
      PlacedRule others newPlace newScoping (outer ++ [.entry name]) source)
    {nodes newNodes : List NodeId} (hList : PlacedList rules place scoping outer 0 sources nodes)
    (hNewList : PlacedList others newPlace newScoping outer 0 listed newNodes) :
    newNodes = nodes.map rename ∧
      ∀ inner ∈ bodyAddresses first sources,
        Carries rename rules others (place (outer ++ inner)) := by
  obtain ⟨hNodes, hInside⟩ := carries_list hPlaces hScoping hBody.listed hList hNewList
  refine ⟨hNodes, fun inner hMem => ?_⟩
  have hEntry {name : String} {source : RuleSource} (hSource : (name, source) ∈ first) :
      ∀ deeper ∈ [] :: source.addresses,
        Carries rename rules others (place (outer ++ [.entry name] ++ deeper)) := by
    obtain ⟨other, hOther, -, hCarries⟩ := hBody.exists_entry hSource
    exact hCarries hScoping (hLeft name source hSource) (hRight name other hOther)
  rcases mem_bodyAddresses_iff.1 hMem with ⟨name, hName, rfl⟩ | hEntries | hListed
  · obtain ⟨⟨_, source⟩, hSource, rfl⟩ := List.mem_map.1 hName
    have hSelf := hEntry hSource [] List.mem_cons_self
    rwa [List.append_nil] at hSelf
  · obtain ⟨name, source, deeper, hSource, hDeeper, rfl⟩ := mem_insideEntries_iff.1 hEntries
    have hThere := hEntry hSource deeper (List.mem_cons_of_mem _ hDeeper)
    rwa [List.append_assoc] at hThere
  · exact hInside inner hListed

/-- The entries of repositories with the same names are carried. -/
theorem lookup_placedEntries_renumber
    (hPlaces : ∀ address, rename (place address) = newPlace address) (outer : RuleAddress)
    (hNames : (first.map Prod.fst).Perm (second.map Prod.fst)) (name : String) :
    (placedEntries newPlace outer second).lookup name =
      ((placedEntries place outer first).lookup name).map rename := by
  rw [lookup_placedEntries, lookup_placedEntries]
  by_cases hName : name ∈ first.map Prod.fst
  · rw [if_pos hName, if_pos (hNames.subset hName), Option.map_some, hPlaces]
  · rw [if_neg hName, if_neg fun hMem => hName (hNames.symm.subset hMem), Option.map_none]

end

/-- Rules that are listed in another order are carried: by induction over both. -/
theorem RuleSource.Relisted.carries {first second : RuleSource} (h : first.Relisted second)
    {rename : NodeId → NodeId} {place newPlace : RuleAddress → NodeId} (rules others : Array Rule)
    (hPlaces : ∀ address, rename (place address) = newPlace address) :
    CarriesRule rename rules others place newPlace first second := by
  refine induction (motive := CarriesRule rename rules others place newPlace) ?_ h
  intro first second hBare hBody
  have hIncludes := includes_of_bare_eq hBare
  refine ⟨hIncludes, fun scoping newScoping address hScoping hPlaced hNewPlaced inner hMem => ?_⟩
  cases hInclude : first.includes with
  | some target =>
    rw [addresses_of_include hInclude, List.mem_singleton] at hMem
    obtain ⟨child, hFound, hRule⟩ := hPlaced.of_include hInclude
    obtain ⟨newChild, hNewFound, hNewRule⟩ := hNewPlaced.of_include (hIncludes.symm.trans hInclude)
    rw [hScoping, hFound] at hNewFound
    cases hNewFound
    rw [hMem, List.append_nil, Carries, hPlaces, hRule, hNewRule]
    rfl
  | none =>
    obtain ⟨hEntries, nodes, hList, hRule⟩ := hPlaced.of_none hInclude
    obtain ⟨hNewEntries, newNodes, hNewList, hNewRule⟩ :=
      hNewPlaced.of_none (hIncludes.symm.trans hInclude)
    have hWithin := hScoping.within (lookup_placedEntries_renumber hPlaces address hBody.names)
    obtain ⟨hNodes, hInside⟩ := carries_body hPlaces hWithin
      (hBody.mono fun left right hBoth => hBoth.2) hEntries hNewEntries hList hNewList
    rcases List.mem_cons.1 hMem with rfl | hMem
    · have hSame : Compilation.ruleOf second newNodes = Compilation.ruleOf first newNodes := by
        show Compilation.ruleOf second.bare newNodes = Compilation.ruleOf first.bare newNodes
        rw [hBare]
      rw [List.append_nil, Carries, hPlaces, hRule, hNewRule, hSame, hNodes]
      rfl
    · rw [addresses_of_none hInclude] at hMem
      exact hInside inner hMem

/-! ## Flags of groups -/

namespace Rule

/-- One step through groups: a group has a child. -/
def IsGroupChild (rules : List Rule) (group child : NodeId) : Prop :=
  ∃ rule, rules[group.index]? = some rule ∧ rule.isGroup = true ∧ child ∈ rule.children

variable {rename : NodeId → NodeId} {rules others : List Rule} {node : NodeId}

theorem injects_renumber (rule : Rule) : (rule.renumber rename).injects = rule.injects := by
  show (rule.isGroup && !(rule.injections.map (Injection.renumber rename)).isEmpty) = _
  rw [List.isEmpty_map, injects]

/-- What reaches an injection does so among renamed rules, if all is carried that it comes to
through groups. -/
theorem Reaches.renumber (h : Reaches rules node)
    (hCarries : ∀ below, Relation.ReflTransGen (IsGroupChild rules) node below →
      others[(rename below).index]? = rules[below.index]?.map (Rule.renumber rename)) :
    Reaches others (rename node) := by
  induction h with
  | injects hRule hInjects =>
    have hNewRule := hCarries _ .refl
    rw [hRule] at hNewRule
    exact .injects hNewRule ((injects_renumber _).trans hInjects)
  | child hRule hGroup hChild _ ih =>
    have hNewRule := hCarries _ .refl
    rw [hRule] at hNewRule
    have hReaches := ih fun below hBelow => hCarries below (.head ⟨_, hRule, hGroup, hChild⟩ hBelow)
    exact .child hNewRule hGroup (List.mem_map_of_mem hChild) hReaches

/-- And what reaches an injection among renamed rules did so before. -/
theorem Reaches.of_renumber (h : Reaches others (rename node))
    (hCarries : ∀ below, Relation.ReflTransGen (IsGroupChild rules) node below →
      others[(rename below).index]? = rules[below.index]?.map (Rule.renumber rename)) :
    Reaches rules node := by
  generalize hImage : rename node = image at h
  induction h generalizing node with
  | injects hNewRule hInjects =>
    have hHere := hCarries node .refl
    rw [hImage, hNewRule, eq_comm, Option.map_eq_some_iff] at hHere
    obtain ⟨rule, hRule, rfl⟩ := hHere
    exact .injects hRule ((injects_renumber rule).symm.trans hInjects)
  | child hNewRule hGroup hNewChild _ ih =>
    have hHere := hCarries node .refl
    rw [hImage, hNewRule, eq_comm, Option.map_eq_some_iff] at hHere
    obtain ⟨rule, hRule, rfl⟩ := hHere
    obtain ⟨child, hChild, hNewImage⟩ := List.mem_map.1 hNewChild
    have hReaches := ih
      (fun below hBelow => hCarries below (.head ⟨rule, hRule, hGroup, hChild⟩ hBelow)) hNewImage
    exact .child hRule hGroup hChild hReaches

/-- Whether a group reaches an injection is the same among renamed rules, if all is carried that it
comes to through groups. -/
theorem flagAt_reachInjections_renumber
    (hCarries : ∀ below, Relation.ReflTransGen (IsGroupChild rules) node below →
      others[(rename below).index]? = rules[below.index]?.map (Rule.renumber rename)) :
    flagAt (reachInjections others) (rename node) = flagAt (reachInjections rules) node := by
  rw [Bool.eq_iff_iff, flagAt_reachInjections_iff, flagAt_reachInjections_iff]
  exact ⟨fun h => h.of_renumber hCarries, fun h => h.renumber hCarries⟩

end Rule

end GrammarSearch
