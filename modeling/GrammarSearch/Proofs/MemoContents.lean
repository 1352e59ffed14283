import GrammarSearch.Search.Memo

/-!
# What a memo holds

A memo only ever answers with what it was given.  `Memo.Holds p` says that every entry satisfies a
relation `p` between keys and values.  No operation breaks it: clearing and trimming drop entries,
touching changes ticks only, and a store adds an entry that satisfies `p` by assumption.  The spec
of `fetch` follows, with the inner computation free to ask the same memo and to fail.
-/

namespace GrammarSearch.Memo

variable {κ ν : Type}

/-- Every entry of the memo satisfies a relation between keys and values. -/
def Holds (p : κ → ν → Prop) (memo : Memo κ ν) : Prop :=
  ∀ entry ∈ memo.entries, p entry.key entry.value

variable {p : κ → ν → Prop} {memo : Memo κ ν}

theorem holds_clear (memo : Memo κ ν) : memo.clear.Holds p := by
  intro entry hEntry
  simp [clear] at hEntry

theorem Holds.tick (h : memo.Holds p) : memo.tick.Holds p := h

/-- Trimming only drops entries. -/
theorem trim_sublist (memo : Memo κ ν) : List.Sublist memo.trim.entries memo.entries := by
  unfold trim
  split
  · exact List.Sublist.refl _
  · dsimp only
    split
    · exact List.filter_sublist
    · exact List.Sublist.refl _

theorem mem_of_mem_trim {entry : MemoEntry κ ν} (h : entry ∈ memo.trim.entries) :
    entry ∈ memo.entries :=
  (trim_sublist memo).subset h

theorem Holds.trim (h : memo.Holds p) : memo.trim.Holds p := by
  intro entry hEntry
  exact h entry (mem_of_mem_trim hEntry)

variable [DecidableEq κ]

theorem Holds.touch (h : memo.Holds p) (key : κ) : (memo.touch key).Holds p := by
  intro entry hEntry
  obtain ⟨old, hOld, rfl⟩ := List.mem_map.1 hEntry
  split
  · exact h old hOld
  · exact h old hOld

/-- What is found under a key is the value of an entry. -/
theorem exists_entry_of_find? {key : κ} {value : ν} (hFind : memo.find? key = some value) :
    ∃ entry ∈ memo.entries, entry.key = key ∧ entry.value = value := by
  unfold find? at hFind
  obtain ⟨entry, hEntry, hValue⟩ := Option.map_eq_some_iff.1 hFind
  have hKey : entry.key = key := by simpa using List.find?_some hEntry
  exact ⟨entry, List.mem_of_find?_eq_some hEntry, hKey, hValue⟩

/-- What is found under a key satisfies the relation. -/
theorem Holds.of_find? (h : memo.Holds p) {key : κ} {value : ν}
    (hFind : memo.find? key = some value) : p key value := by
  obtain ⟨entry, hEntry, rfl, rfl⟩ := exists_entry_of_find? hFind
  exact h entry hEntry

/-- A store keeps the relation and answers with a value that satisfies it. -/
theorem Holds.store (h : memo.Holds p) {key : κ} {value : ν} (tick : Nat) (hValue : p key value) :
    p key (memo.store key tick value).1 ∧ (memo.store key tick value).2.Holds p := by
  unfold Memo.store
  split
  · next old hFind => exact ⟨h.of_find? hFind, h.trim⟩
  · refine ⟨hValue, Holds.trim ?_⟩
    intro entry hEntry
    rcases List.mem_cons.1 hEntry with rfl | hEntry
    · exact hValue
    · exact h entry hEntry

/-- If working an answer out keeps the relation and gives only answers that satisfy it, so does
fetching the answer, whether it is found, worked out or fails. -/
theorem Holds.fetch {σ ε : Type} {view : σ → Memo κ ν} {update : σ → Memo κ ν → σ}
    (hView : ∀ state memo, view (update state memo) = memo) {key : κ}
    {compute : σ → Except ε ν × σ}
    (hCompute : ∀ state, (view state).Holds p → (view (compute state).2).Holds p ∧
      ∀ value, (compute state).1 = .ok value → p key value)
    {state : σ} (h : (view state).Holds p) :
    (view (Memo.fetch view update key compute state).2).Holds p ∧
      ∀ value, (Memo.fetch view update key compute state).1 = .ok value → p key value := by
  have hTicked : (view (update state (view state).tick)).Holds p := by
    rw [hView]
    exact h.tick
  unfold Memo.fetch
  split
  · next old hFind =>
    rw [hView]
    refine ⟨h.touch key, ?_⟩
    intro value hValue
    obtain rfl := Except.ok.inj hValue
    exact h.of_find? hFind
  · split
    · next failure after hRun =>
      have hAfter := hCompute _ hTicked
      rw [hRun] at hAfter
      exact ⟨hAfter.1, fun value hValue => nomatch hValue⟩
    · next value after hRun =>
      have hAfter := hCompute _ hTicked
      rw [hRun] at hAfter
      obtain ⟨hKept, hStored⟩ := hAfter.1.store (view state).clock (hAfter.2 value rfl)
      dsimp only
      rw [hView]
      refine ⟨hStored, ?_⟩
      intro answer hAnswer
      obtain rfl := Except.ok.inj hAnswer
      exact hKept

end GrammarSearch.Memo
