import GrammarSearch.Proofs.Precedence
import Mathlib.Data.List.Induction

/-!
# Merging a list of outcomes

Outcomes are merged one after another, and once there are empty matches the order matters: an empty
match of a rule that opens no region may be refused now and accepted later, when the best outcome
is empty too.  What can be said of the best outcome all the same is `Outcome.KeepsBest`: it is
missing only where nothing matched, no solid outcome seen so far beats it, and none that was there
before it ties with it.

A merge keeps this (`Outcome.KeepsBest.merge`), because whatever is refused now is not solid or does
not beat the best outcome, and whatever is accepted beats the outcome that it replaces.
-/

namespace GrammarSearch.Outcome

variable {tree : Tree} {start best : Outcome} {seen : List Outcome}

/-- Only the start and the priority of an outcome decide what it beats. -/
theorem beats_congr {a b c : Outcome} (hStart : a.start? = b.start?)
    (hPriority : a.priority = b.priority) : a.beats c = b.beats c := by
  simp only [beats, hStart, hPriority]

/-- The best outcome is as it was or the new one, which matched, beats the outcome that it replaces
and, where that one has some text, is solid. -/
theorem better_cases (tree : Tree) (old new : Outcome) :
    better tree old new = old ∨
      better tree old new = new ∧ new.found = true ∧
        (old.found = true → new.beats old = true ∧
          (old.hit.isEmpty = false → new.isSolid tree = true)) := by
  rw [better_eq_if]
  split
  · next hTaken =>
    obtain ⟨hFound, hOver⟩ := hTaken
    refine Or.inr ⟨rfl, hFound, fun hOld => ?_⟩
    obtain ⟨hBeats, hSolid⟩ := hOver hOld
    refine ⟨hBeats, fun hText => ?_⟩
    rcases hSolid with hSolid | hEmpty
    · exact hSolid
    · rw [hText] at hEmpty
      contradiction
  · exact Or.inl rfl

/-- What the best outcome is to the outcomes that were merged into a first one. -/
structure KeepsBest (tree : Tree) (seen : List Outcome) (best : Outcome) : Prop where
  /-- It is missing only where nothing matched. -/
  found_iff : best.found = true ↔ ∃ c ∈ seen, c.found = true
  /-- If it matched it is one of them, and no solid one before it ties with it. -/
  taken : best.found = true → ∃ before after, seen = before ++ best :: after ∧
    ∀ c ∈ before, c.found = true → c.isSolid tree = true →
      ¬ (c.start? = best.start? ∧ c.priority = best.priority)
  /-- No solid one beats it. -/
  not_beats : ∀ c ∈ seen, c.found = true → c.isSolid tree = true → c.beats best = false

namespace KeepsBest

theorem nil (hStart : start.found = false) : KeepsBest tree [] start where
  found_iff := by simp [hStart]
  taken hFound := by simp [hStart] at hFound
  not_beats c hMem := absurd hMem List.not_mem_nil

/-- Nothing solid that was there ties with an outcome that takes the place of the best one. -/
theorem not_ties (h : KeepsBest tree seen best) {next : Outcome}
    (hBeats : best.found = true → next.beats best = true) {c : Outcome} (hMem : c ∈ seen)
    (hFound : c.found = true) (hSolid : c.isSolid tree = true) :
    ¬ (c.start? = next.start? ∧ c.priority = next.priority) := by
  rintro ⟨hStart, hPriority⟩
  have hBest : best.found = true := h.found_iff.2 ⟨c, hMem, hFound⟩
  have hWins : c.beats best = true := (beats_congr hStart hPriority).trans (hBeats hBest)
  rw [h.not_beats c hMem hFound hSolid] at hWins
  contradiction

/-- Merging one more outcome. -/
theorem merge (h : KeepsBest tree seen best) (next : Outcome) :
    KeepsBest tree (seen ++ [next]) (better tree best next) where
  found_iff := by
    rw [found_better, Bool.or_eq_true, h.found_iff]
    simp [or_and_right, exists_or]
  taken hFound := by
    rcases better_cases tree best next with hKept | ⟨hTaken, -, hOver⟩
    · rw [hKept] at hFound ⊢
      obtain ⟨before, after, rfl, hBefore⟩ := h.taken hFound
      exact ⟨before, after ++ [next], by simp, hBefore⟩
    · rw [hTaken]
      exact ⟨seen, [], rfl, fun c => h.not_ties fun hBest => (hOver hBest).1⟩
  not_beats c hMem hFound hSolid := by
    rcases List.mem_append.1 hMem with hSeen | hNext
    · have hBest : best.found = true := h.found_iff.2 ⟨c, hSeen, hFound⟩
      exact not_beats_better_of_old hBest (h.not_beats c hSeen hFound hSolid)
    · obtain rfl := List.mem_singleton.1 hNext
      exact not_beats_better_of_new hFound hSolid (beats_irrefl c)

/-- Merging a whole list: by induction on it, from its end. -/
theorem foldl (hStart : start.found = false) (states : List Outcome) :
    KeepsBest tree states (states.foldl (better tree) start) := by
  induction states using List.reverseRecOn with
  | nil => exact nil hStart
  | append_singleton seen last ih =>
    rw [List.foldl_append]
    exact ih.merge last

end KeepsBest

/-- Outcomes merged one after another into one that found nothing give a missing outcome just where
nothing in the list matched.  Otherwise they give one of the list, which no solid one of the list
beats and with which no solid one before it ties.  On the way, the best outcome is replaced only by
one that matched and beats it, and one that has some text only by a solid one. -/
theorem merged_list_unbeaten (tree : Tree) {start : Outcome} (hStart : start.found = false)
    (states : List Outcome) :
    ((states.foldl (better tree) start).found = false ↔ ∀ c ∈ states, c.found = false) ∧
    ((states.foldl (better tree) start).found = true →
      (∃ before after, states = before ++ states.foldl (better tree) start :: after ∧
        ∀ c ∈ before, c.found = true → c.isSolid tree = true →
          ¬ (c.start? = (states.foldl (better tree) start).start? ∧
            c.priority = (states.foldl (better tree) start).priority)) ∧
      ∀ c ∈ states, c.found = true → c.isSolid tree = true →
        c.beats (states.foldl (better tree) start) = false) ∧
    ∀ before next after, states = before ++ next :: after →
      (before ++ [next]).foldl (better tree) start = before.foldl (better tree) start ∨
      (before ++ [next]).foldl (better tree) start = next ∧ next.found = true ∧
        ((before.foldl (better tree) start).found = true →
          next.beats (before.foldl (better tree) start) = true ∧
          ((before.foldl (better tree) start).hit.isEmpty = false →
            next.isSolid tree = true)) := by
  have hKeeps : KeepsBest tree states (states.foldl (better tree) start) := .foldl hStart states
  refine ⟨?_, fun hFound => ⟨hKeeps.taken hFound, hKeeps.not_beats⟩, ?_⟩
  · rw [← Bool.not_eq_true, hKeeps.found_iff]
    simp
  · intro before next after _
    rw [List.foldl_append]
    exact better_cases tree _ next

/-- A rule that opens a region, and one that only matches. -/
def mergingTree : Tree :=
  .ofRules #[{ beginPattern := some ⟨"(?=a)"⟩ }, { matchPattern := some ⟨"b*"⟩ }] []

/-- An outcome of one of the two rules. -/
def mergingOutcome (rule start stop : Nat) : Outcome :=
  ⟨⟨rule⟩, ⟨[⟨start, stop⟩]⟩, .normal, none⟩

/-- An empty match is refused beside one with text, and accepted when it comes again beside an empty
one that opens a region. -/
theorem merged_list_takes_empty_match_later :
    (nothing ⟨1⟩).found = false ∧
    [mergingOutcome 1 5 6, mergingOutcome 1 2 2, mergingOutcome 0 4 4, nothing ⟨0⟩,
      mergingOutcome 1 2 2].foldl (better mergingTree) (nothing ⟨1⟩) = mergingOutcome 1 2 2 ∧
    (mergingOutcome 0 4 4).isSolid mergingTree = true ∧
    (mergingOutcome 0 4 4).beats (mergingOutcome 1 2 2) = false ∧
    ([mergingOutcome 1 5 6] ++ [mergingOutcome 1 2 2]).foldl (better mergingTree) (nothing ⟨1⟩) =
      mergingOutcome 1 5 6 := by
  have hMerged : [mergingOutcome 1 5 6, mergingOutcome 1 2 2, mergingOutcome 0 4 4, nothing ⟨0⟩,
      mergingOutcome 1 2 2].foldl (better mergingTree) (nothing ⟨1⟩) = mergingOutcome 1 2 2 := by
    decide +kernel
  have hSolid : (mergingOutcome 0 4 4).isSolid mergingTree = true := by decide +kernel
  obtain ⟨-, hFound, hSteps⟩ := merged_list_unbeaten mergingTree (found_nothing ⟨1⟩)
    [mergingOutcome 1 5 6, mergingOutcome 1 2 2, mergingOutcome 0 4 4, nothing ⟨0⟩,
      mergingOutcome 1 2 2]
  rw [hMerged] at hFound
  obtain ⟨-, hUnbeaten⟩ := hFound rfl
  refine ⟨rfl, hMerged, hSolid, hUnbeaten _ (by simp) rfl hSolid, ?_⟩
  rcases hSteps [mergingOutcome 1 5 6] (mergingOutcome 1 2 2) _ rfl with hKept | ⟨-, -, hOver⟩
  · exact hKept
  · have hEmpty : (mergingOutcome 1 2 2).isSolid mergingTree = false := by decide +kernel
    rw [(hOver rfl).2 rfl] at hEmpty
    contradiction

end GrammarSearch.Outcome
