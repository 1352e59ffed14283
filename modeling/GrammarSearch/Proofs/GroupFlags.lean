import GrammarSearch.Rule.Tree

/-!
# The flags of groups are closed

Spreading flags from children to groups stops at a fixed point.  Every round that changes anything
flags one more rule at least, so as many rounds as there are rules are enough.  At the fixed point a
group without a flag has no injections, and none of its children has a flag: this is what a search
relies on when it leaves out siblings that cannot raise the priority.  Nothing else has a flag
(`flagAt_reachInjections_iff`).
-/

namespace GrammarSearch

namespace Rule

variable {rules : List Rule} {flags : List Bool}

/-! ## One round -/

/-- Raising flags either changes nothing or raises one at least. -/
private theorem raise_eq_or_count_lt (raised : Rule → Bool) (rules : List Rule) (flags : List Bool)
    (hLength : rules.length = flags.length) :
    List.zipWith (fun rule flag => flag || raised rule) rules flags = flags ∨
      flags.count true <
        (List.zipWith (fun rule flag => flag || raised rule) rules flags).count true := by
  induction rules generalizing flags with
  | nil =>
    left
    rw [List.zipWith_nil_left]
    exact (List.length_eq_zero_iff.1 hLength.symm).symm
  | cons rule rules ih =>
    cases flags with
    | nil => simp at hLength
    | cons flag flags =>
      have hRest := ih flags (by simpa using hLength)
      rw [List.zipWith_cons_cons, List.count_cons, List.count_cons]
      cases flag with
      | true =>
        rcases hRest with hSame | hMore
        · left
          rw [hSame, Bool.true_or]
        · right
          simpa using hMore
      | false =>
        cases hRaised : raised rule with
        | true =>
          right
          rcases hRest with hSame | hMore
          · rw [hSame]
            simp
          · simp
            omega
        | false =>
          rcases hRest with hSame | hMore
          · left
            rw [hSame, Bool.false_or]
          · right
            simpa using hMore

theorem length_spreadOnce (hLength : rules.length = flags.length) :
    (spreadOnce rules flags).length = flags.length := by
  rw [spreadOnce, List.length_zipWith, hLength, Nat.min_self]

theorem spreadOnce_eq_or_count_lt (hLength : rules.length = flags.length) :
    spreadOnce rules flags = flags ∨ flags.count true < (spreadOnce rules flags).count true :=
  raise_eq_or_count_lt _ rules flags hLength

/-- After a round a rule has a flag if it had one, or is a group with a child that had one. -/
theorem flagAt_spreadOnce (hLength : rules.length = flags.length) {node : NodeId} {rule : Rule}
    (hRule : rules[node.index]? = some rule) :
    flagAt (spreadOnce rules flags) node =
      (flagAt flags node || (rule.isGroup && rule.children.any (flagAt flags))) := by
  obtain ⟨hIndex, -⟩ := List.getElem?_eq_some_iff.1 hRule
  have hFlag : flags[node.index]? = some flags[node.index] := List.getElem?_eq_getElem (by omega)
  simp [flagAt, spreadOnce, List.getElem?_zipWith, hRule, hFlag]

/-! ## All rounds -/

/-- Enough rounds reach a fixed point. -/
theorem spreadOnce_spread {rounds : Nat} (hLength : rules.length = flags.length)
    (hRounds : rules.length ≤ rounds + flags.count true) :
    spreadOnce rules (spread rules rounds flags) = spread rules rounds flags := by
  induction rounds generalizing flags with
  | zero =>
    have hAll : flags.count true = flags.length := by
      have := List.count_le_length (a := true) (l := flags)
      omega
    rcases spreadOnce_eq_or_count_lt hLength with hSame | hMore
    · exact hSame
    · have := List.count_le_length (a := true) (l := spreadOnce rules flags)
      rw [length_spreadOnce hLength] at this
      omega
  | succ rounds ih =>
    rw [spread]
    split
    · next hSame => exact hSame
    · next hChanged =>
      refine ih ?_ ?_
      · rw [length_spreadOnce hLength, hLength]
      · rcases spreadOnce_eq_or_count_lt hLength with hSame | hMore
        · exact absurd hSame hChanged
        · omega

theorem length_spread {rounds : Nat} (hLength : rules.length = flags.length) :
    (spread rules rounds flags).length = flags.length := by
  induction rounds generalizing flags with
  | zero => rfl
  | succ rounds ih =>
    rw [spread]
    split
    · rfl
    · have hNext := length_spreadOnce hLength
      rw [ih (by omega), hNext]

/-- Flags are never taken back. -/
theorem flagAt_spread {rounds : Nat} (hLength : rules.length = flags.length) {node : NodeId}
    {rule : Rule} (hRule : rules[node.index]? = some rule) (hFlag : flagAt flags node = true) :
    flagAt (spread rules rounds flags) node = true := by
  induction rounds generalizing flags with
  | zero => exact hFlag
  | succ rounds ih =>
    rw [spread]
    split
    · exact hFlag
    · refine ih ?_ ?_
      · rw [length_spreadOnce hLength, hLength]
      · rw [flagAt_spreadOnce hLength hRule, hFlag, Bool.true_or]

theorem length_reachInjections (rules : List Rule) :
    (reachInjections rules).length = rules.length := by
  rw [reachInjections, length_spread (List.length_map _).symm, List.length_map]

/-- The flags to start with are at the groups with an injection. -/
theorem flagAt_map_injects_iff {node : NodeId} :
    flagAt (rules.map injects) node = true ↔
      ∃ rule, rules[node.index]? = some rule ∧ rule.injects = true := by
  cases hRule : rules[node.index]? with
  | none => simp [flagAt, hRule]
  | some rule => simp [flagAt, hRule]

/-- A group without a flag has no injections, and none of its children has a flag. -/
theorem of_flagAt_reachInjections_eq_false {node : NodeId} {rule : Rule}
    (hRule : rules[node.index]? = some rule) (hGroup : rule.isGroup = true)
    (hFlag : flagAt (reachInjections rules) node = false) :
    rule.injections = [] ∧
      ∀ child ∈ rule.children, flagAt (reachInjections rules) child = false := by
  have hLength : rules.length = (rules.map injects).length := (List.length_map _).symm
  have hFixed : spreadOnce rules (reachInjections rules) = reachInjections rules :=
    spreadOnce_spread hLength (Nat.le_add_right _ _)
  constructor
  · have hInjects : rule.injects = false := by
      rw [Bool.eq_false_iff]
      intro hInjects
      have hInitial : flagAt (rules.map injects) node = true :=
        flagAt_map_injects_iff.2 ⟨rule, hRule, hInjects⟩
      have hKept : flagAt (reachInjections rules) node = true :=
        flagAt_spread hLength hRule hInitial
      rw [hFlag] at hKept
      contradiction
    simpa [injects, hGroup] using hInjects
  · have hRound := flagAt_spreadOnce (length_reachInjections rules).symm hRule
    rw [hFixed, hFlag, hGroup, Bool.false_or, Bool.true_and] at hRound
    intro child hChild
    rw [Bool.eq_false_iff]
    intro hRaised
    rw [eq_comm, List.any_eq_false] at hRound
    exact hRound child hChild hRaised

/-! ## Reached injections -/

/-- A group with an injection, or with a child that reaches one. -/
inductive Reaches (rules : List Rule) : NodeId → Prop
  | injects {node : NodeId} {rule : Rule} (hRule : rules[node.index]? = some rule)
      (hInjects : rule.injects = true) : Reaches rules node
  | child {node child : NodeId} {rule : Rule} (hRule : rules[node.index]? = some rule)
      (hGroup : rule.isGroup = true) (hChild : child ∈ rule.children)
      (hReaches : Reaches rules child) : Reaches rules node

theorem exists_rule_of_flagAt (hLength : rules.length = flags.length) {node : NodeId}
    (hFlag : flagAt flags node = true) : ∃ rule, rules[node.index]? = some rule := by
  cases hFound : flags[node.index]? with
  | none => simp [flagAt, hFound] at hFlag
  | some flag =>
    obtain ⟨hIndex, -⟩ := List.getElem?_eq_some_iff.1 hFound
    exact ⟨_, List.getElem?_eq_getElem (hLength ▸ hIndex)⟩

/-- Only rules that reach injections have a flag. -/
def OnlyReaching (rules : List Rule) (flags : List Bool) : Prop :=
  ∀ node, flagAt flags node = true → Reaches rules node

theorem onlyReaching_map_injects (rules : List Rule) :
    OnlyReaching rules (rules.map injects) := by
  intro node hFlag
  obtain ⟨rule, hRule, hInjects⟩ := flagAt_map_injects_iff.1 hFlag
  exact .injects hRule hInjects

/-- Spreading flags only rules that reach injections, if it starts from such rules. -/
theorem OnlyReaching.spread (hLength : rules.length = flags.length)
    (h : OnlyReaching rules flags) (rounds : Nat) :
    OnlyReaching rules (spread rules rounds flags) := by
  induction rounds generalizing flags with
  | zero => exact h
  | succ rounds ih =>
    have hNext := hLength.trans (length_spreadOnce hLength).symm
    rw [Rule.spread]
    split
    · exact h
    · refine ih hNext fun node hFlag => ?_
      obtain ⟨rule, hRule⟩ := exists_rule_of_flagAt hNext hFlag
      rw [flagAt_spreadOnce hLength hRule, Bool.or_eq_true, Bool.and_eq_true,
        List.any_eq_true] at hFlag
      rcases hFlag with hOld | ⟨hGroup, child, hChild, hRaised⟩
      · exact h node hOld
      · exact .child hRule hGroup hChild (h child hRaised)

/-- Flags that every group with an injection has, and every group with a child that has one, are
had by all that reaches an injection. -/
theorem flagAt_of_reaches
    (hInjects : ∀ {node rule}, rules[node.index]? = some rule → rule.injects = true →
      flagAt flags node = true)
    (hClosed : ∀ {node rule child}, rules[node.index]? = some rule → rule.isGroup = true →
      child ∈ rule.children → flagAt flags child = true → flagAt flags node = true)
    {node : NodeId} (hReaches : Reaches rules node) : flagAt flags node = true := by
  induction hReaches with
  | injects hRule hOwn => exact hInjects hRule hOwn
  | child hRule hGroup hChild _ ih => exact hClosed hRule hGroup hChild ih

/-- A rule has a flag exactly if it is a group that reaches a group with an injection. -/
theorem flagAt_reachInjections_iff {node : NodeId} :
    flagAt (reachInjections rules) node = true ↔ Reaches rules node := by
  have hLength : rules.length = (rules.map injects).length := (List.length_map _).symm
  constructor
  · exact (onlyReaching_map_injects rules).spread hLength rules.length node
  · refine flagAt_of_reaches (fun hRule hInjects => ?_) fun hRule hGroup hChild hRaised => ?_
    · exact flagAt_spread hLength hRule (flagAt_map_injects_iff.2 ⟨_, hRule, hInjects⟩)
    · rw [← Bool.not_eq_false]
      intro hFlag
      obtain ⟨-, hChildren⟩ := of_flagAt_reachInjections_eq_false hRule hGroup hFlag
      rw [hChildren _ hChild] at hRaised
      contradiction

end Rule

namespace Tree

/-- Trees come from a builder, so their flags are those of their rules. -/
def Built (tree : Tree) : Prop :=
  ∃ builder : Builder, tree = builder.build

theorem built_ofRules (rules : Array Rule) (roots : Table NodeId) : (ofRules rules roots).Built :=
  ⟨{ rules, roots }, rfl⟩

/-- The flags of a tree that is built are those of its rules. -/
theorem mayRaisePriority_build (builder : Builder) (node : NodeId) :
    builder.build.mayRaisePriority node =
      Rule.flagAt (Rule.reachInjections builder.rules.toList) node := by
  simp [mayRaisePriority, Builder.build, ofRules, Rule.flagAt]

/-- A group that cannot raise the priority has no injections and no child that can raise it. -/
theorem Built.of_mayRaisePriority_eq_false {tree : Tree} (hBuilt : tree.Built) {node : NodeId}
    {rule : Rule} (hRule : tree.rule? node = some rule) (hGroup : rule.isGroup = true)
    (hFlag : tree.mayRaisePriority node = false) :
    rule.injections = [] ∧ ∀ child ∈ rule.children, tree.mayRaisePriority child = false := by
  obtain ⟨builder, rfl⟩ := hBuilt
  have hList : builder.rules.toList[node.index]? = some rule := by
    simpa [rule?, Builder.build, ofRules] using hRule
  rw [mayRaisePriority_build] at hFlag
  obtain ⟨hInjections, hChildren⟩ :=
    Rule.of_flagAt_reachInjections_eq_false hList hGroup hFlag
  refine ⟨hInjections, ?_⟩
  intro child hChild
  rw [mayRaisePriority_build]
  exact hChildren child hChild

end Tree

end GrammarSearch
