import GrammarSearch.Search.Outcome

/-!
# The order of outcomes

Merging two outcomes mixes two questions: which of them goes first, and whether an empty match may
take the place of a real one.  This file separates them.  `Outcome.beats` is the bare order, by
start and then by priority, and `better_eq_if` says when the winner is also accepted.  The order is
a strict weak one on outcomes that matched: it is transitive, and of three outcomes the middle one
cannot tie with both ends of a win.
-/

namespace GrammarSearch.Outcome

/-- Whether both outcomes matched, and the first one starts earlier, or together with the second one
and with higher priority. -/
def beats (first second : Outcome) : Bool :=
  match first.start?, second.start? with
  | some start, some other => precedes start other first.priority second.priority
  | _, _ => false

/-! ## The bare order -/

theorem found_iff (outcome : Outcome) :
    outcome.found = true ↔ ∃ start, outcome.start? = some start := by
  rw [found, ← Match.start?_isSome, Option.isSome_iff_exists]
  rfl

theorem start?_eq_none_iff (outcome : Outcome) :
    outcome.start? = none ↔ outcome.found = false := by
  rw [found, ← Match.start?_isSome, Option.isSome_eq_false_iff, Option.isNone_iff_eq_none]
  rfl

theorem beats_iff {a b : Outcome} :
    a.beats b = true ↔ ∃ s t, a.start? = some s ∧ b.start? = some t ∧
      (s < t ∨ s = t ∧ b.priority.rank < a.priority.rank) := by
  unfold beats
  constructor
  · intro h
    split at h
    · next s t hs ht =>
      refine ⟨s, t, hs, ht, ?_⟩
      simpa [precedes, Priority.lt_iff_rank] using h
    · simp at h
  · rintro ⟨s, t, hs, ht, h⟩
    rw [hs, ht]
    simpa [precedes, Priority.lt_iff_rank] using h

theorem found_of_beats_left {a b : Outcome} (h : a.beats b = true) : a.found = true := by
  obtain ⟨s, t, hs, ht, hlt⟩ := beats_iff.1 h
  exact (found_iff a).2 ⟨s, hs⟩

theorem not_beats_of_not_found {a b : Outcome} (ha : a.found = false) : a.beats b = false := by
  rw [Bool.eq_false_iff]
  intro h
  rw [found_of_beats_left h] at ha
  contradiction

theorem beats_irrefl (a : Outcome) : a.beats a = false := by
  rw [Bool.eq_false_iff]
  intro h
  obtain ⟨s, t, hs, ht, hlt⟩ := beats_iff.1 h
  have hst : s = t := by
    rw [hs] at ht
    exact Option.some.inj ht
  omega

theorem beats_trans {a b c : Outcome} (hab : a.beats b = true) (hbc : b.beats c = true) :
    a.beats c = true := by
  obtain ⟨s, t, hs, ht, hst⟩ := beats_iff.1 hab
  obtain ⟨t', u, ht', hu, htu⟩ := beats_iff.1 hbc
  have htt : t = t' := by
    rw [ht] at ht'
    exact Option.some.inj ht'
  exact beats_iff.2 ⟨s, u, hs, hu, by omega⟩

theorem not_beats_of_beats {a b : Outcome} (h : a.beats b = true) : b.beats a = false := by
  rw [Bool.eq_false_iff]
  intro hBack
  have hSelf := beats_trans h hBack
  rw [beats_irrefl] at hSelf
  contradiction

/-- An outcome in between loses against the winner or wins over the loser. -/
theorem beats_or_beats {a b c : Outcome} (hac : a.beats c = true) (hb : b.found = true) :
    a.beats b = true ∨ b.beats c = true := by
  obtain ⟨s, u, hs, hu, hsu⟩ := beats_iff.1 hac
  obtain ⟨t, ht⟩ := (found_iff b).1 hb
  by_cases h : s < t ∨ s = t ∧ b.priority.rank < a.priority.rank
  · left
    exact beats_iff.2 ⟨s, t, hs, ht, h⟩
  · right
    exact beats_iff.2 ⟨t, u, ht, hu, by omega⟩

theorem not_beats_trans {a b c : Outcome} (hb : b.found = true) (hab : a.beats b = false)
    (hbc : b.beats c = false) : a.beats c = false := by
  rw [Bool.eq_false_iff]
  intro h
  rcases beats_or_beats h hb with hLeft | hRight
  · rw [hLeft] at hab
    contradiction
  · rw [hRight] at hbc
    contradiction

/-- Outcomes that tie beat the same ones. -/
theorem beats_iff_of_tie {a b c : Outcome} (ha : a.found = true) (hb : b.found = true)
    (hab : a.beats b = false) (hba : b.beats a = false) :
    a.beats c = true ↔ b.beats c = true := by
  constructor
  · intro h
    rcases beats_or_beats h hb with hLeft | hRight
    · rw [hab] at hLeft
      contradiction
    · exact hRight
  · intro h
    rcases beats_or_beats h ha with hLeft | hRight
    · rw [hba] at hLeft
      contradiction
    · exact hRight

/-! ## Merging by the order -/

/-- The new outcome is kept when it matched and, if the old one matched too, beats it and has some
text, opens a region, or replaces an empty match. -/
theorem better_eq_if (tree : Tree) (old new : Outcome) :
    better tree old new =
      if new.found = true ∧ (old.found = true →
          new.beats old = true ∧ (new.isSolid tree = true ∨ old.hit.isEmpty = true)) then new
      else old := by
  unfold better
  split
  · next hNew =>
    rw [if_neg]
    rintro ⟨hFound, -⟩
    rw [start?_eq_none_iff] at hNew
    simp [hNew] at hFound
  · next s hNew hOld =>
    rw [if_pos]
    refine ⟨(found_iff new).2 ⟨s, hNew⟩, fun hFound => ?_⟩
    rw [start?_eq_none_iff] at hOld
    simp [hOld] at hFound
  · next s t hNew hOld =>
    have hNewFound := (found_iff new).2 ⟨s, hNew⟩
    have hOldFound := (found_iff old).2 ⟨t, hOld⟩
    have hBeats : new.beats old = precedes s t new.priority old.priority := by
      simp [beats, hNew, hOld]
    simp [hNewFound, hOldFound, hBeats]

/-- An outcome that found nothing never takes the place of another. -/
theorem better_of_not_found {tree : Tree} {old new : Outcome} (hNew : new.found = false) :
    better tree old new = old := by
  rw [better_eq_if, if_neg]
  simp [hNew]

theorem better_of_old_not_found {tree : Tree} {old new : Outcome} (hNew : new.found = true)
    (hOld : old.found = false) : better tree old new = new := by
  rw [better_eq_if, if_pos]
  simp [hNew, hOld]

theorem better_of_not_beats {tree : Tree} {old new : Outcome} (hOld : old.found = true)
    (hBeats : new.beats old = false) : better tree old new = old := by
  rw [better_eq_if, if_neg]
  simp [hOld, hBeats]

theorem better_of_beats {tree : Tree} {old new : Outcome} (hBeats : new.beats old = true)
    (hSolid : new.isSolid tree = true) : better tree old new = new := by
  rw [better_eq_if, if_pos]
  exact ⟨found_of_beats_left hBeats, fun _ => ⟨hBeats, Or.inl hSolid⟩⟩

@[simp] theorem found_nothing (rule : NodeId) : (nothing rule).found = false := rfl

/-- A merge finds something exactly when one of the two did. -/
theorem found_better (tree : Tree) (old new : Outcome) :
    (better tree old new).found = (old.found || new.found) := by
  rw [better_eq_if]
  cases hNew : new.found <;> cases hOld : old.found <;> simp [hNew, hOld]
  split <;> assumption

/-- What could not beat the old outcome cannot beat the merged one. -/
theorem not_beats_better_of_old {tree : Tree} {old new c : Outcome} (hOld : old.found = true)
    (hBeats : c.beats old = false) : c.beats (better tree old new) = false := by
  by_cases hNew : new.beats old = true
  · rcases better_eq_or tree old new with h | h
    · rw [h, hBeats]
    · rw [h, Bool.eq_false_iff]
      intro hc
      rw [beats_trans hc hNew] at hBeats
      contradiction
  · rw [better_of_not_beats hOld (Bool.eq_false_iff.2 hNew), hBeats]

/-- What could not beat a solid new outcome cannot beat the merged one. -/
theorem not_beats_better_of_new {tree : Tree} {old new c : Outcome} (hNew : new.found = true)
    (hSolid : new.isSolid tree = true) (hBeats : c.beats new = false) :
    c.beats (better tree old new) = false := by
  rcases Bool.eq_false_or_eq_true old.found with hOld | hOld
  · by_cases hWin : new.beats old = true
    · rw [better_of_beats hWin hSolid, hBeats]
    · rw [Bool.not_eq_true] at hWin
      rw [better_of_not_beats hOld hWin]
      exact not_beats_trans hNew hBeats hWin
  · rw [better_of_old_not_found hNew hOld, hBeats]

end GrammarSearch.Outcome
