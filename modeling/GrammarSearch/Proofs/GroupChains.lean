import GrammarSearch.Proofs.GroupFlags
import Mathlib.Data.List.Chain

/-!
# Flags of groups as chains

A host that spreads flags in place goes over the rules from the first to the last one and raises
flags as it goes, so that a rule sees what was raised before it in the same pass, and it goes over
them again until a pass raises none.  How many flags a pass raises depends on the order of the
rules, and on their cycles; what comes out in the end does not.  Each raised flag is one less to
raise, so the passes come to an end (`spreadInPlace`).  A flag is only raised at a rule that reaches
an injection, and where a pass raises none no such rule is left out.

A rule that reaches an injection does so by a chain of groups, each next one a child of the one
before (`ChainToInjection`).

## Main results

* `spreadInPlace_eq`: passes in place give the same flags as whole rounds.
* `reaches_iff_exists_chain`: what reaches an injection, by chains.
* `flags_are_chains_to_injections`: the flags are the groups at the start of a chain.
-/

namespace GrammarSearch.Rule

/-! ## One pass -/

/-- The flags of rules while a pass goes over them, and whether it has raised one. -/
structure Pass where
  flags : List Bool
  changed : Bool

namespace Pass

/-- A group without a flag takes one if a child has one by now. -/
def Raises (pass : Pass) (rule : Rule) (index : Nat) : Prop :=
  pass.flags[index]? = some false ∧ rule.isGroup = true ∧
    rule.children.any (flagAt pass.flags) = true

instance (pass : Pass) (rule : Rule) (index : Nat) : Decidable (pass.Raises rule index) :=
  inferInstanceAs (Decidable (_ ∧ _ ∧ _))

/-- Looks at one rule, and raises its flag if it takes one. -/
def look (pass : Pass) (entry : Rule × Nat) : Pass :=
  if pass.Raises entry.1 entry.2 then ⟨pass.flags.set entry.2 true, true⟩ else pass

/-- What becomes of flags in a pass: they stay where they are, and it says that it has changed
something only if there are fewer left to raise. -/
structure Grows (before after : Pass) : Prop where
  length_eq : after.flags.length = before.flags.length
  kept : ∀ node, flagAt before.flags node = true → flagAt after.flags node = true
  progress : after = before ∨
    after.changed = true ∧ after.flags.count false < before.flags.count false

variable {pass before middle after : Pass} {entries : List (Rule × Nat)}

theorem Grows.refl (pass : Pass) : pass.Grows pass :=
  ⟨rfl, fun _ hFlag => hFlag, .inl rfl⟩

theorem Grows.trans (hFirst : before.Grows middle) (hSecond : middle.Grows after) :
    before.Grows after := by
  refine ⟨hSecond.length_eq.trans hFirst.length_eq,
    fun node hFlag => hSecond.kept node (hFirst.kept node hFlag), ?_⟩
  rcases hFirst.progress with rfl | ⟨hChanged, hFewer⟩
  · exact hSecond.progress
  · rcases hSecond.progress with rfl | ⟨hChanged, hLess⟩
    · exact .inr ⟨hChanged, hFewer⟩
    · exact .inr ⟨hChanged, hLess.trans hFewer⟩

/-- Where nothing is changed in the end, nothing has happened. -/
theorem Grows.eq_of_changed_eq_false (h : before.Grows after) (hChanged : after.changed = false) :
    after = before := by
  rcases h.progress with hSame | ⟨hRaised, -⟩
  · exact hSame
  · rw [hChanged] at hRaised
    contradiction

theorem flagAt_set (flags : List Bool) {index : Nat} (hIndex : index < flags.length)
    (node : NodeId) :
    flagAt (flags.set index true) node = (node.index == index || flagAt flags node) := by
  by_cases hNode : index = node.index
  · subst hNode
    simp [flagAt, hIndex]
  · simp [flagAt, hNode, Ne.symm hNode]

theorem grows_look (pass : Pass) (entry : Rule × Nat) : pass.Grows (pass.look entry) := by
  obtain ⟨rule, index⟩ := entry
  rw [look]
  split
  · next hRaises =>
    obtain ⟨hIndex, hFlag⟩ := List.getElem?_eq_some_iff.1 hRaises.1
    refine ⟨List.length_set, fun node hNode => ?_, .inr ⟨rfl, ?_⟩⟩
    · rw [flagAt_set _ hIndex, hNode, Bool.or_true]
    · have hSome : 0 < pass.flags.count false :=
        List.count_pos_iff.2 (hFlag ▸ List.getElem_mem hIndex)
      rw [List.count_set hIndex, hFlag]
      show pass.flags.count false - 1 + 0 < pass.flags.count false
      omega
  · exact Grows.refl pass

theorem grows_foldl (pass : Pass) (entries : List (Rule × Nat)) :
    pass.Grows (entries.foldl look pass) :=
  List.foldlRecOn entries look (Grows.refl pass)
    fun before hBefore entry _ => hBefore.trans (grows_look before entry)

/-- A pass that changes nothing has come by no rule that takes a flag. -/
theorem not_raises_of_foldl (hChanged : (entries.foldl look pass).changed = false)
    {entry : Rule × Nat} (hEntry : entry ∈ entries) : ¬ pass.Raises entry.1 entry.2 := by
  induction entries with
  | nil => contradiction
  | cons first rest ih =>
    -- A change is never taken back, so there was none at the first rule either.
    have hLast := (grows_foldl (pass.look first) rest).eq_of_changed_eq_false hChanged
    have hFirst : pass.look first = pass :=
      (grows_look pass first).eq_of_changed_eq_false (hLast ▸ hChanged)
    rcases List.mem_cons.1 hEntry with rfl | hRest
    · intro hRaises
      rw [List.foldl_cons, hLast, look, if_pos hRaises] at hChanged
      contradiction
    · rw [List.foldl_cons, hFirst] at hChanged
      exact ih hChanged hRest

end Pass

variable {rules : List Rule} {flags : List Bool} {node : NodeId}

/-- One pass over all rules, first to last. -/
def passOver (rules : List Rule) (flags : List Bool) : Pass :=
  rules.zipIdx.foldl Pass.look ⟨flags, false⟩

theorem grows_passOver (rules : List Rule) (flags : List Bool) :
    Pass.Grows ⟨flags, false⟩ (passOver rules flags) :=
  Pass.grows_foldl _ _

theorem count_passOver_lt (hChanged : (passOver rules flags).changed = true) :
    (passOver rules flags).flags.count false < flags.count false := by
  rcases (grows_passOver rules flags).progress with hSame | ⟨-, hFewer⟩
  · rw [hSame] at hChanged
    contradiction
  · exact hFewer

theorem OnlyReaching.look {pass : Pass} (h : OnlyReaching rules pass.flags) {entry : Rule × Nat}
    (hRule : rules[entry.2]? = some entry.1) : OnlyReaching rules (pass.look entry).flags := by
  intro node hFlag
  rw [Pass.look] at hFlag
  split at hFlag
  · next hRaises =>
    obtain ⟨hIndex, -⟩ := List.getElem?_eq_some_iff.1 hRaises.1
    rw [Pass.flagAt_set _ hIndex, Bool.or_eq_true, beq_iff_eq] at hFlag
    rcases hFlag with hOwn | hOld
    · -- The child has its flag by now, from this pass or from one before.
      obtain ⟨child, hChild, hRaised⟩ := List.any_eq_true.1 hRaises.2.2
      exact .child (hOwn ▸ hRule) hRaises.2.1 hChild (h child hRaised)
    · exact h node hOld
  · exact h node hFlag

theorem OnlyReaching.passOver (h : OnlyReaching rules flags) :
    OnlyReaching rules (passOver rules flags).flags :=
  List.foldlRecOn (motive := fun pass => OnlyReaching rules pass.flags) rules.zipIdx Pass.look h
    fun _ hPass _ hEntry => hPass.look (List.mem_zipIdx_iff_getElem?.1 hEntry)

/-- A pass that changes nothing finds no group without a flag and with a child that has one. -/
theorem flagAt_of_passOver (hLength : rules.length = flags.length)
    (hChanged : (passOver rules flags).changed = false) {rule : Rule}
    (hRule : rules[node.index]? = some rule) (hGroup : rule.isGroup = true) {child : NodeId}
    (hChild : child ∈ rule.children) (hFlag : flagAt flags child = true) :
    flagAt flags node = true := by
  obtain ⟨hIndex, -⟩ := List.getElem?_eq_some_iff.1 hRule
  have hOwn : flags[node.index]? = some flags[node.index] := List.getElem?_eq_getElem (by omega)
  have hMem : (rule, node.index) ∈ rules.zipIdx := List.mem_zipIdx_iff_getElem?.2 hRule
  have hNot := Pass.not_raises_of_foldl hChanged hMem
  have hRaised : rule.children.any (flagAt flags) = true :=
    List.any_eq_true.2 ⟨child, hChild, hFlag⟩
  rw [flagAt, hOwn, Option.getD_some, ← Bool.not_eq_false]
  intro hMissing
  exact hNot ⟨hOwn.trans (congrArg some hMissing), hGroup, hRaised⟩

/-! ## All passes -/

/-- Spreads flags in place, pass after pass until one changes nothing. -/
def spreadInPlace (rules : List Rule) (flags : List Bool) : List Bool :=
  if (passOver rules flags).changed then
    spreadInPlace rules (passOver rules flags).flags
  else
    (passOver rules flags).flags
termination_by flags.count false
decreasing_by exact count_passOver_lt ‹_›

/-- The passes end with one that changes nothing. -/
theorem changed_passOver_spreadInPlace (rules : List Rule) (flags : List Bool) :
    (passOver rules (spreadInPlace rules flags)).changed = false := by
  fun_induction spreadInPlace rules flags with
  | case1 flags hChanged ih => exact ih
  | case2 flags hChanged =>
    rw [Bool.not_eq_true] at hChanged
    rw [(grows_passOver rules flags).eq_of_changed_eq_false hChanged]
    exact hChanged

theorem length_spreadInPlace (rules : List Rule) (flags : List Bool) :
    (spreadInPlace rules flags).length = flags.length := by
  fun_induction spreadInPlace rules flags with
  | case1 flags hChanged ih => exact ih.trans (grows_passOver rules flags).length_eq
  | case2 flags hChanged => exact (grows_passOver rules flags).length_eq

theorem flagAt_spreadInPlace (hFlag : flagAt flags node = true) :
    flagAt (spreadInPlace rules flags) node = true := by
  fun_induction spreadInPlace rules flags with
  | case1 flags hChanged ih => exact ih ((grows_passOver rules flags).kept node hFlag)
  | case2 flags hChanged => exact (grows_passOver rules flags).kept node hFlag

theorem OnlyReaching.spreadInPlace (h : OnlyReaching rules flags) :
    OnlyReaching rules (spreadInPlace rules flags) := by
  fun_induction Rule.spreadInPlace rules flags with
  | case1 flags hChanged ih => exact ih h.passOver
  | case2 flags hChanged => exact h.passOver

/-- Passes in place flag what reaches injections. -/
theorem flagAt_spreadInPlace_iff :
    flagAt (spreadInPlace rules (rules.map injects)) node = true ↔ Reaches rules node := by
  have hLength : rules.length = (spreadInPlace rules (rules.map injects)).length := by
    rw [length_spreadInPlace, List.length_map]
  constructor
  · exact (onlyReaching_map_injects rules).spreadInPlace node
  · refine flagAt_of_reaches (fun hRule hInjects => flagAt_spreadInPlace ?_) ?_
    · exact flagAt_map_injects_iff.2 ⟨_, hRule, hInjects⟩
    · intro _ _ _ hRule hGroup hChild hFlag
      exact flagAt_of_passOver hLength (changed_passOver_spreadInPlace rules _) hRule hGroup hChild
        hFlag

/-- Passes in place give the same flags as whole rounds. -/
theorem spreadInPlace_eq (rules : List Rule) :
    spreadInPlace rules (rules.map injects) = reachInjections rules := by
  have hLength : (spreadInPlace rules (rules.map injects)).length =
      (reachInjections rules).length := by
    rw [length_spreadInPlace, length_reachInjections, List.length_map]
  refine List.ext_getElem hLength fun index hFirst hSecond => ?_
  have hFlags : flagAt (spreadInPlace rules (rules.map injects)) ⟨index⟩ =
      flagAt (reachInjections rules) ⟨index⟩ := by
    rw [Bool.eq_iff_iff, flagAt_spreadInPlace_iff, flagAt_reachInjections_iff]
  simpa [flagAt, hFirst, hSecond] using hFlags

/-! ## Chains -/

/-- A chain of groups from a rule down, each next one a child of the one before, to one with an
injection. -/
structure ChainToInjection (rules : List Rule) (top : NodeId) (chain : List NodeId) : Prop where
  starts : chain.head? = some top
  groups : ∀ node ∈ chain, ∃ rule, rules[node.index]? = some rule ∧ rule.isGroup = true
  linked : chain.IsChain fun above below =>
    ∃ rule, rules[above.index]? = some rule ∧ below ∈ rule.children
  injects : ∃ last rule, chain.getLast? = some last ∧ rules[last.index]? = some rule ∧
    rule.injections ≠ []

theorem Reaches.exists_chain (h : Reaches rules node) :
    ∃ chain, ChainToInjection rules node chain := by
  induction h with
  | @injects node rule hRule hInjects =>
    obtain ⟨hGroup, hSome⟩ : rule.isGroup = true ∧ rule.injections ≠ [] := by
      simpa [Rule.injects] using hInjects
    refine ⟨[node], rfl, ?_, .singleton node, node, rule, rfl, hRule, hSome⟩
    exact List.forall_mem_singleton.2 ⟨rule, hRule, hGroup⟩
  | @child node child rule hRule hGroup hChild _ ih =>
    obtain ⟨chain, hChain⟩ := ih
    obtain ⟨rest, rfl⟩ := List.head?_eq_some_iff.1 hChain.starts
    obtain ⟨last, lastRule, hLast, hLastRule, hSome⟩ := hChain.injects
    refine ⟨node :: child :: rest, rfl, ?_, ?_, last, lastRule, ?_, hLastRule, hSome⟩
    · exact List.forall_mem_cons.2 ⟨⟨rule, hRule, hGroup⟩, hChain.groups⟩
    · exact List.isChain_cons_cons.2 ⟨⟨rule, hRule, hChild⟩, hChain.linked⟩
    · rw [List.getLast?_cons_cons]
      exact hLast

theorem ChainToInjection.reaches {chain : List NodeId} (h : ChainToInjection rules node chain) :
    Reaches rules node := by
  induction chain generalizing node with
  | nil => exact absurd h.starts (by simp)
  | cons first rest ih =>
    obtain rfl : first = node := Option.some.inj h.starts
    obtain ⟨⟨rule, hRule, hGroup⟩, hGroups⟩ := List.forall_mem_cons.1 h.groups
    obtain ⟨last, lastRule, hLast, hLastRule, hSome⟩ := h.injects
    cases rest with
    | nil =>
      obtain rfl : first = last := Option.some.inj hLast
      obtain rfl : rule = lastRule := Option.some.inj (hRule.symm.trans hLastRule)
      refine .injects hRule ?_
      simpa [Rule.injects, hGroup] using hSome
    | cons next rest =>
      obtain ⟨⟨linkRule, hLinkRule, hChild⟩, hLinked⟩ := List.isChain_cons_cons.1 h.linked
      obtain rfl : rule = linkRule := Option.some.inj (hRule.symm.trans hLinkRule)
      rw [List.getLast?_cons_cons] at hLast
      exact .child hRule hGroup hChild
        (ih ⟨rfl, hGroups, hLinked, last, lastRule, hLast, hLastRule, hSome⟩)

/-- What reaches an injection does so by a chain of groups. -/
theorem reaches_iff_exists_chain :
    Reaches rules node ↔ ∃ chain, ChainToInjection rules node chain :=
  ⟨Reaches.exists_chain, fun ⟨_, hChain⟩ => hChain.reaches⟩

/-- A rule that is no group is in no chain. -/
theorem ChainToInjection.notMem {top : NodeId} {chain : List NodeId} {rule : Rule}
    (h : ChainToInjection rules top chain) (hRule : rules[node.index]? = some rule)
    (hGroup : rule.isGroup = false) : node ∉ chain := by
  intro hMem
  obtain ⟨other, hOther, hIs⟩ := h.groups node hMem
  obtain rfl : rule = other := Option.some.inj (hRule.symm.trans hOther)
  rw [hGroup] at hIs
  contradiction

/-- Flags spread in place come to rest, for any rules, and are then those of whole rounds: one for
each rule, and raised exactly at the rules from which a chain of groups, each next one a child of
the one before, leads to an injection.  A rule that is no group has no flag and is in no chain. -/
theorem flags_are_chains_to_injections (rules : List Rule) :
    spreadInPlace rules (rules.map injects) = reachInjections rules ∧
    (reachInjections rules).length = rules.length ∧
    (∀ node, flagAt (reachInjections rules) node = true ↔
      ∃ chain, ChainToInjection rules node chain) ∧
    ∀ node rule, rules[node.index]? = some rule → rule.isGroup = false →
      flagAt (reachInjections rules) node = false ∧
        ∀ top chain, ChainToInjection rules top chain → node ∉ chain := by
  have hChains (node : NodeId) : flagAt (reachInjections rules) node = true ↔
      ∃ chain, ChainToInjection rules node chain := by
    rw [flagAt_reachInjections_iff, reaches_iff_exists_chain]
  refine ⟨spreadInPlace_eq rules, length_reachInjections rules, hChains,
    fun node rule hRule hGroup => ⟨?_, fun _ _ hChain => hChain.notMem hRule hGroup⟩⟩
  rw [Bool.eq_false_iff]
  intro hFlag
  obtain ⟨chain, hChain⟩ := (hChains node).1 hFlag
  exact hChain.notMem hRule hGroup (List.mem_of_head? hChain.starts)

/-- Groups in a ring, one of them its own child, with a child that is no rule; a match rule with an
injection; and a group that could only reach an injection through it. -/
def ringRules : List Rule :=
  [{ children := [⟨0⟩, ⟨9⟩, ⟨1⟩] }, { children := [⟨0⟩, ⟨2⟩] },
    { injections := [⟨"source", ⟨4⟩⟩] },
    { matchPattern := some ⟨"a"⟩, children := [⟨2⟩], injections := [⟨"source", ⟨4⟩⟩] },
    { children := [⟨4⟩, ⟨3⟩] }]

theorem flags_of_ringRules :
    spreadInPlace ringRules (ringRules.map injects) = [true, true, true, false, false] ∧
    (∃ chain, ChainToInjection ringRules ⟨0⟩ chain) ∧
    (∀ chain, ¬ ChainToInjection ringRules ⟨4⟩ chain) ∧
    ∀ top chain, ChainToInjection ringRules top chain → ⟨3⟩ ∉ chain := by
  have hFlags : reachInjections ringRules = [true, true, true, false, false] := by decide
  obtain ⟨hInPlace, -, hChains, hOthers⟩ := flags_are_chains_to_injections ringRules
  refine ⟨hInPlace.trans hFlags, (hChains ⟨0⟩).1 (by decide), fun chain hChain => ?_,
    (hOthers ⟨3⟩ _ rfl (by decide)).2⟩
  have hFlag : flagAt (reachInjections ringRules) ⟨4⟩ = true := (hChains ⟨4⟩).2 ⟨chain, hChain⟩
  rw [hFlags] at hFlag
  contradiction

end GrammarSearch.Rule
