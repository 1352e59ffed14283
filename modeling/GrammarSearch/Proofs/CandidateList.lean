import GrammarSearch.Proofs.Candidates
import Mathlib.Data.List.Nodup
import Mathlib.Data.List.Perm.Subperm

/-!
# The list of candidates

The candidates of a rule in the order of declaration: child by child, the match of its own pattern
or the whole list of a group, and then the lists of the targets of the injections that apply.  The
list is finite where no rule leads back to itself.  `candidates` builds it with a budget of as many
rules as there are, and `candidates_eq_listed` says that this is enough: a longer way down would
pass some rule twice.
-/

namespace GrammarSearch.Engine

variable {σ : Type}

/-- The candidates that a child contributes, given the lists of groups. -/
def contributed (engine : Engine σ) (query : Query)
    (lists : NodeId → Priority → List Outcome) (priority : Priority) (child : NodeId) :
    List Outcome :=
  if engine.isGroup child then lists child priority
  else (engine.own? query priority child).toList

/-- The candidates of a rule, given the lists of the rules that a search of it goes on to. -/
def listed (engine : Engine σ) (weight : String → String → Weight) (query : Query)
    (lists : NodeId → Priority → List Outcome) (node : NodeId) (priority : Priority) :
    List Outcome :=
  match engine.tree.rule? node with
  | none => []
  | some rule =>
    rule.children.flatMap (engine.contributed query lists priority) ++
      (rule.injections.filter (applies weight query)).flatMap fun injection =>
        lists injection.target (weight injection.selector query.scope).priority

/-- The candidates of a rule, through at most so many rules inside each other. -/
def candidatesWithin (engine : Engine σ) (weight : String → String → Weight) (query : Query) :
    (budget : Nat) → NodeId → Priority → List Outcome
  | 0 => fun _ _ => []
  | budget + 1 => engine.listed weight query (engine.candidatesWithin weight query budget)

/-- The candidates of a rule in the order of declaration. -/
def candidates (engine : Engine σ) (weight : String → String → Weight) (query : Query) :
    NodeId → Priority → List Outcome :=
  engine.candidatesWithin weight query engine.tree.size

/-- A search of the first rule goes on to the second one. -/
def LeadsTo (engine : Engine σ) (weight : String → String → Weight) (query : Query)
    (first second : NodeId) : Prop :=
  ∃ priority next, (second, next) ∈ engine.below weight query (first, priority)

/-- No rule that a search of this one goes on to leads back to itself. -/
def Acyclic (engine : Engine σ) (weight : String → String → Weight) (query : Query)
    (node : NodeId) : Prop :=
  ∀ reached, Relation.ReflTransGen (engine.LeadsTo weight query) node reached →
    ¬ Relation.TransGen (engine.LeadsTo weight query) reached reached

variable {engine : Engine σ} {weight : String → String → Weight} {query : Query}
variable {priority : Priority} {node child : NodeId} {c : Outcome}
variable {lists others : NodeId → Priority → List Outcome}

/-! ## What a child contributes, by kind -/

theorem contributed_of_ne_group {rule : Rule} (hRule : engine.tree.rule? child = some rule)
    (hKind : rule.kind ≠ .group) :
    engine.contributed query lists priority child = (engine.own? query priority child).toList := by
  unfold contributed
  rw [if_neg]
  rw [isGroup_iff_kind, hRule]
  simpa using hKind

theorem contributed_of_group {rule : Rule} (hRule : engine.tree.rule? child = some rule)
    (hKind : rule.kind = .group) :
    engine.contributed query lists priority child = lists child priority := by
  unfold contributed
  rw [if_pos]
  exact isGroup_iff_kind.2 ⟨rule, hRule, hKind⟩

/-! ## The list holds candidates -/

theorem ofChild_of_mem_contributed
    (hLists : ∀ node priority, ∀ c ∈ lists node priority,
      engine.IsCandidate weight query (node, priority) c)
    (hMem : c ∈ engine.contributed query lists priority child) :
    engine.OfChild weight query priority child c := by
  unfold contributed at hMem
  split at hMem
  · next hGroup => exact Or.inr ⟨hGroup, hLists child priority c hMem⟩
  · exact Or.inl (by simpa using hMem)

/-- What the list holds are candidates. -/
theorem isCandidate_of_mem_candidatesWithin {budget : Nat}
    (hMem : c ∈ engine.candidatesWithin weight query budget node priority) :
    engine.IsCandidate weight query (node, priority) c := by
  induction budget generalizing node priority c with
  | zero => simp [candidatesWithin] at hMem
  | succ budget ih =>
    unfold candidatesWithin listed at hMem
    split at hMem
    · simp at hMem
    · next rule hRule =>
      refine isCandidate_iff.2 ⟨rule, hRule, ?_⟩
      rcases List.mem_append.1 hMem with hChildren | hInjections
      · obtain ⟨child, hChild, hContributed⟩ := List.mem_flatMap.1 hChildren
        exact Or.inl ⟨child, hChild, ofChild_of_mem_contributed (fun _ _ _ => ih) hContributed⟩
      · obtain ⟨injection, hInjection, hListed⟩ := List.mem_flatMap.1 hInjections
        obtain ⟨hDeclared, hApplies⟩ := List.mem_filter.1 hInjection
        exact Or.inr ⟨injection, hDeclared, hApplies, ih hListed⟩

/-! ## The budget is enough -/

/-- Rules that refer only to rules added before them do not lead back to themselves. -/
theorem acyclic_of_index_lt
    (hIndex : ∀ above rule, engine.tree.rule? above = some rule →
      (∀ child ∈ rule.children, child.index < above.index) ∧
        ∀ injection ∈ rule.injections, injection.target.index < above.index) :
    engine.Acyclic weight query node := by
  have hStep (first second : NodeId) (hLeads : engine.LeadsTo weight query first second) :
      second.index < first.index := by
    obtain ⟨priority, next, hBelow⟩ := hLeads
    cases hRule : engine.tree.rule? first with
    | none =>
      rw [below_of_unknown hRule] at hBelow
      simp at hBelow
    | some rule =>
      obtain ⟨hChildren, hInjections⟩ := hIndex first rule hRule
      rcases (mem_below_iff hRule).1 hBelow with
        ⟨child, hMem, -, hPlace⟩ | ⟨injection, hMem, -, hPlace⟩
      · rw [Prod.mk.injEq] at hPlace
        rw [hPlace.1]
        exact hChildren child hMem
      · rw [Prod.mk.injEq] at hPlace
        rw [hPlace.1]
        exact hInjections injection hMem
  intro reached _ hCycle
  have hDown (last : NodeId)
      (hPath : Relation.TransGen (engine.LeadsTo weight query) reached last) :
      last.index < reached.index := by
    induction hPath with
    | single hLeads => exact hStep _ _ hLeads
    | tail _ hLeads ih => exact Nat.lt_trans (hStep _ _ hLeads) ih
  exact Nat.lt_irrefl _ (hDown reached hCycle)

/-- The list of a rule depends on the lists of the rules below only. -/
theorem listed_congr
    (hSame : ∀ place ∈ engine.below weight query (node, priority),
      lists place.1 place.2 = others place.1 place.2) :
    engine.listed weight query lists node priority =
      engine.listed weight query others node priority := by
  unfold listed
  split
  · rfl
  · next rule hRule =>
    congr 1
    · refine List.flatMap_congr ?_
      intro child hChild
      unfold contributed
      split
      · next hGroup =>
        exact hSame _ ((mem_below_iff hRule).2 (Or.inl ⟨child, hChild, hGroup, rfl⟩))
      · rfl
    · refine List.flatMap_congr ?_
      intro injection hInjection
      obtain ⟨hDeclared, hApplies⟩ := List.mem_filter.1 hInjection
      exact hSame _ ((mem_below_iff hRule).2 (Or.inr ⟨injection, hDeclared, hApplies, rfl⟩))

/-- Handles of rules that are there, each listed once, are no more than there are rules. -/
private theorem length_le_size {tree : Tree} {nodes : List NodeId} (hNodup : nodes.Nodup)
    (hKnown : ∀ node ∈ nodes, (tree.rule? node).isSome = true) : nodes.length ≤ tree.size := by
  have hIndices : (nodes.map NodeId.index).Nodup := by
    refine List.Nodup.map ?_ hNodup
    rintro ⟨a⟩ ⟨b⟩ (rfl : a = b)
    rfl
  have hSubset : nodes.map NodeId.index ⊆ List.range tree.size := by
    intro index hIndex
    obtain ⟨node, hNode, rfl⟩ := List.mem_map.1 hIndex
    have hSome := hKnown node hNode
    rw [List.mem_range]
    simpa [Tree.rule?, Tree.size] using hSome
  have hLength := (List.subperm_of_subset hIndices hSubset).length_le
  simpa using hLength

/-- Each budget that makes up for the rules not yet passed gives the same list. The induction keeps
the rules that were passed on the way down: they are all different, since none leads to itself. -/
theorem candidatesWithin_succ {budget : Nat} (passed : List NodeId) (hNodup : passed.Nodup)
    (hKnown : ∀ above ∈ passed, (engine.tree.rule? above).isSome = true)
    (hPassed : ∀ above ∈ passed, Relation.TransGen (engine.LeadsTo weight query) above node)
    (hAcyclic : engine.Acyclic weight query node)
    (hBudget : engine.tree.size ≤ passed.length + budget) :
    engine.candidatesWithin weight query (budget + 1) node priority =
      engine.candidatesWithin weight query budget node priority := by
  induction budget generalizing node priority passed with
  | zero =>
    have hNew : node ∉ passed := fun hMem => hAcyclic node .refl (hPassed node hMem)
    cases hRule : engine.tree.rule? node with
    | none => simp only [candidatesWithin, listed, hRule]
    | some rule =>
      have hLonger := length_le_size (List.nodup_cons.2 ⟨hNew, hNodup⟩)
        (List.forall_mem_cons.2 ⟨Option.isSome_of_eq_some hRule, hKnown⟩)
      rw [List.length_cons] at hLonger
      omega
  | succ budget ih =>
    have hNew : node ∉ passed := fun hMem => hAcyclic node .refl (hPassed node hMem)
    refine listed_congr ?_
    rintro ⟨next, nextPriority⟩ hBelow
    have hLeads : engine.LeadsTo weight query node next := ⟨priority, nextPriority, hBelow⟩
    have hSome : (engine.tree.rule? node).isSome = true := by
      rw [Option.isSome_iff_ne_none]
      intro hUnknown
      rw [below_of_unknown hUnknown] at hBelow
      simp at hBelow
    have hAbove : ∀ above ∈ node :: passed,
        Relation.TransGen (engine.LeadsTo weight query) above next := by
      refine List.forall_mem_cons.2 ⟨.single hLeads, ?_⟩
      intro above hMem
      exact (hPassed above hMem).tail hLeads
    have hNext : engine.Acyclic weight query next :=
      fun reached hReached => hAcyclic reached (.head hLeads hReached)
    refine ih (node :: passed) (List.nodup_cons.2 ⟨hNew, hNodup⟩)
      (List.forall_mem_cons.2 ⟨hSome, hKnown⟩) hAbove hNext ?_
    rw [List.length_cons]
    omega

/-- Where no rule leads back to itself, larger budgets add no candidates. -/
theorem candidatesWithin_eq_candidates (hAcyclic : engine.Acyclic weight query node)
    {budget : Nat} (hBudget : engine.tree.size ≤ budget) :
    engine.candidatesWithin weight query budget node priority =
      engine.candidates weight query node priority := by
  induction hBudget with
  | refl => rfl
  | @step budget hBudget ih =>
    have hEnough : engine.tree.size ≤ ([] : List NodeId).length + budget := by simpa using hBudget
    rw [candidatesWithin_succ [] List.nodup_nil (by simp) (by simp) hAcyclic hEnough, ih]

/-- Where no rule leads back to itself, the list of a rule is put together from those of the rules
below it. -/
theorem candidates_eq_listed (hAcyclic : engine.Acyclic weight query node) :
    engine.candidates weight query node priority =
      engine.listed weight query (engine.candidates weight query) node priority := by
  rw [← candidatesWithin_eq_candidates hAcyclic (Nat.le_succ engine.tree.size)]
  rfl

end GrammarSearch.Engine
