import GrammarSearch.Proofs.PathScores
import GrammarSearch.Weigher
import Mathlib.Data.List.Induction

/-!
# What selectors apply to, and how much they weigh

A selector read as a condition on scopes either holds or does not (`Holds`), whatever it scores: a
path holds where there is a choice of scopes for its names, and conjunctions, choices and exclusions
are those of conditions.  It has a score exactly where it holds, and no score is negative.

The weight of alternatives is found by going through them once.  What is known of the weight so far
is `IsHeaviest`: it is the most that one of the alternatives scores, nothing aside, and comes from
the first that scores so much.

## Main results

* `holds_all_iff`, `holds_any_iff`: conjunctions and choices as conditions.
* `isSome_score_iff`, `score_nonneg`: scores against the condition.
* `isHeaviest_foldl`: the weight of any alternatives.
* `weightOf_isHeaviest`: both together, for the weight of a text.
-/

namespace GrammarSearch.Selector

/-! ## Selectors as conditions -/

mutual

/-- Whether a selector holds of a list of scopes, outermost first. -/
def Holds (scopes : List String) : Selector → Prop
  | path names => ∃ places, Placement names scopes places
  | all parts => AllHold scopes parts
  | any parts => AnyHolds scopes parts
  | exclude part => ¬ Holds scopes part

/-- Whether all selectors of a list hold. -/
def AllHold (scopes : List String) : List Selector → Prop
  | [] => True
  | part :: parts => Holds scopes part ∧ AllHold scopes parts

/-- Whether some selector of a list holds. -/
def AnyHolds (scopes : List String) : List Selector → Prop
  | [] => False
  | part :: parts => Holds scopes part ∨ AnyHolds scopes parts

end

variable {scopes : List String}

/-- A conjunction holds where all its parts do. -/
theorem holds_all_iff {parts : List Selector} :
    Holds scopes (all parts) ↔ ∀ part ∈ parts, Holds scopes part := by
  rw [Holds]
  induction parts with
  | nil => simp [AllHold]
  | cons part parts ih => rw [AllHold, ih, List.forall_mem_cons]

/-- A choice holds where one of its parts does. -/
theorem holds_any_iff {parts : List Selector} :
    Holds scopes (any parts) ↔ ∃ part ∈ parts, Holds scopes part := by
  rw [Holds]
  induction parts with
  | nil => simp [AnyHolds]
  | cons part parts ih => rw [AnyHolds, ih, List.exists_mem_cons_iff]

theorem isSome_score_path_iff {names : List String} :
    (score scopes (path names)).isSome = true ↔ Holds scopes (path names) := by
  have hBest := isBestWorth_score_path names scopes
  cases hScore : score scopes (path names) with
  | none =>
    rw [hScore] at hBest
    exact iff_of_false (by simp) fun ⟨places, hPlacement⟩ => hBest places hPlacement
  | some value =>
    rw [hScore] at hBest
    obtain ⟨places, hPlacement, -⟩ := hBest.1
    exact iff_of_true rfl ⟨places, hPlacement⟩

mutual

/-- A selector has a score exactly where it holds. -/
theorem isSome_score_iff :
    ∀ selector : Selector, (selector.score scopes).isSome = true ↔ Holds scopes selector
  | path _ => isSome_score_path_iff
  | all parts => by
    rw [score, Holds]
    exact isSome_sumScore_iff parts
  | any parts => by
    rw [score, Holds]
    exact isSome_bestScore_iff parts
  | exclude part => by
    rw [Holds, ← isSome_score_iff part, score]
    cases part.score scopes with
    | none => simp
    | some value => simp

theorem isSome_sumScore_iff :
    ∀ parts : List Selector, (sumScore scopes parts).isSome = true ↔ AllHold scopes parts
  | [] => by simp [sumScore, AllHold]
  | part :: parts => by
    rw [AllHold, ← isSome_score_iff part, ← isSome_sumScore_iff parts, sumScore]
    cases part.score scopes with
    | none => simp
    | some first =>
      cases sumScore scopes parts with
      | none => simp
      | some rest => simp

theorem isSome_bestScore_iff :
    ∀ parts : List Selector, (bestScore scopes parts).isSome = true ↔ AnyHolds scopes parts
  | [] => by simp [bestScore, AnyHolds]
  | part :: parts => by
    rw [AnyHolds, ← isSome_score_iff part, ← isSome_bestScore_iff parts, bestScore]
    cases part.score scopes with
    | none => simp
    | some first =>
      cases bestScore scopes parts with
      | none => simp
      | some rest => simp

end

/-! ## No score is negative -/

theorem score_path_nonneg {names : List String} :
    ∀ value ∈ score scopes (path names), 0 ≤ value := by
  intro value hScore
  have hBest := isBestWorth_score_path names scopes
  rw [Option.mem_def.1 hScore] at hBest
  obtain ⟨places, -, rfl⟩ := hBest.1
  exact worth_nonneg names places

mutual

/-- No score is negative. -/
theorem score_nonneg : ∀ selector : Selector, ∀ value ∈ selector.score scopes, 0 ≤ value
  | path _ => score_path_nonneg
  | all parts => by
    rw [score]
    exact sumScore_nonneg parts
  | any parts => by
    rw [score]
    exact bestScore_nonneg parts
  | exclude part => by
    rw [score]
    cases part.score scopes with
    | none => simp
    | some _ => simp

theorem sumScore_nonneg : ∀ parts : List Selector, ∀ value ∈ sumScore scopes parts, 0 ≤ value
  | [] => by simp [sumScore]
  | part :: parts => by
    have hFirst := score_nonneg part
    have hRest := sumScore_nonneg parts
    rw [sumScore]
    cases hPart : part.score scopes with
    | none => simp
    | some first =>
      cases hParts : sumScore scopes parts with
      | none => simp
      | some rest =>
        rintro value ⟨⟩
        exact Int.add_nonneg (hFirst first hPart) (hRest rest hParts)

theorem bestScore_nonneg : ∀ parts : List Selector, ∀ value ∈ bestScore scopes parts, 0 ≤ value
  | [] => by simp [bestScore]
  | part :: parts => by
    have hFirst := score_nonneg part
    have hRest := bestScore_nonneg parts
    rw [bestScore]
    cases hPart : part.score scopes with
    | none => exact hRest
    | some first =>
      cases hParts : bestScore scopes parts with
      | none => simpa using hFirst first hPart
      | some rest =>
        rintro value ⟨⟩
        exact Int.le_trans (hFirst first hPart) (Int.le_max_left first rest)

end

/-! ## The heaviest alternative -/

/-- What alternatives score, where they apply. -/
def scoresOf (scopes : List String) (alternatives : List Alternative) : Set Int :=
  {value | ∃ alternative ∈ alternatives, alternative.score scopes = some value}

/-- The weight of alternatives: the most that one of them scores, if that is more than nothing, with
the priority of the first that scores so much. -/
structure IsHeaviest (scopes : List String) (alternatives : List Alternative) (weight : Weight) :
    Prop where
  greatest : IsGreatest (insert 0 (scoresOf scopes alternatives)) weight.value
  first : 0 < weight.value → ∃ before best after, alternatives = before ++ best :: after ∧
    best.score scopes = some weight.value ∧ best.priority = weight.priority ∧
    ∀ earlier ∈ before, earlier.score scopes ≠ some weight.value
  otherwise : ¬ 0 < weight.value → weight = .notApplicable

theorem scoresOf_concat_of_none {alternative : Alternative} (h : alternative.score scopes = none)
    (alternatives : List Alternative) :
    scoresOf scopes (alternatives ++ [alternative]) = scoresOf scopes alternatives := by
  ext value
  simp [scoresOf, or_and_right, exists_or, h]

theorem scoresOf_concat_of_some {alternative : Alternative} {value : Int}
    (h : alternative.score scopes = some value) (alternatives : List Alternative) :
    scoresOf scopes (alternatives ++ [alternative]) =
      insert value (scoresOf scopes alternatives) := by
  ext other
  simp [scoresOf, or_and_right, exists_or, h, or_comm, eq_comm]

namespace IsHeaviest

variable {alternatives : List Alternative} {alternative : Alternative} {weight : Weight}

theorem nil (scopes : List String) : IsHeaviest scopes [] .notApplicable := by
  refine ⟨⟨Set.mem_insert _ _, ?_⟩, fun hPositive => absurd hPositive (Int.lt_irrefl 0),
    fun _ => rfl⟩
  rintro value (rfl | ⟨alternative, hMem, -⟩)
  · exact Int.le_refl _
  · exact absurd hMem List.not_mem_nil

/-- No alternative scores more than the weight. -/
theorem score_le (h : IsHeaviest scopes alternatives weight) (hMem : alternative ∈ alternatives)
    {value : Int} (hScore : alternative.score scopes = some value) : value ≤ weight.value :=
  h.greatest.2 (Set.mem_insert_of_mem _ ⟨alternative, hMem, hScore⟩)

/-- The first of the best alternatives stays it, whatever comes after it. -/
theorem first_concat (h : IsHeaviest scopes alternatives weight) (alternative : Alternative)
    (hPositive : 0 < weight.value) :
    ∃ before best after, alternatives ++ [alternative] = before ++ best :: after ∧
      best.score scopes = some weight.value ∧ best.priority = weight.priority ∧
      ∀ earlier ∈ before, earlier.score scopes ≠ some weight.value := by
  obtain ⟨before, best, after, rfl, hBest⟩ := h.first hPositive
  exact ⟨before, best, after ++ [alternative], by simp, hBest⟩

/-- One more alternative. -/
theorem heavier (h : IsHeaviest scopes alternatives weight) (alternative : Alternative) :
    IsHeaviest scopes (alternatives ++ [alternative]) (heavier scopes weight alternative) := by
  unfold Selector.heavier
  cases hScore : alternative.score scopes with
  | none =>
    refine ⟨?_, h.first_concat alternative, h.otherwise⟩
    rw [scoresOf_concat_of_none hScore]
    exact h.greatest
  | some value =>
    have hZero : 0 ≤ weight.value := h.greatest.2 (Set.mem_insert _ _)
    dsimp only
    split
    case isTrue hMore =>
      refine ⟨?_, fun _ => ⟨alternatives, alternative, [], rfl, hScore, rfl, ?_⟩, ?_⟩
      · rw [scoresOf_concat_of_some hScore, Set.insert_comm]
        refine ⟨Set.mem_insert _ _, ?_⟩
        rintro other (rfl | hOther)
        · exact Int.le_refl _
        · exact Int.le_trans (h.greatest.2 hOther) (Int.le_of_lt hMore)
      · intro earlier hMem hSame
        exact Int.not_le.2 hMore (h.score_le hMem hSame)
      · exact fun hNot => absurd (Int.lt_of_le_of_lt hZero hMore) hNot
    case isFalse hNoMore =>
      refine ⟨?_, h.first_concat alternative, h.otherwise⟩
      rw [scoresOf_concat_of_some hScore, Set.insert_comm]
      refine ⟨Set.mem_insert_of_mem _ h.greatest.1, ?_⟩
      rintro other (rfl | hOther)
      · exact Int.not_lt.1 hNoMore
      · exact h.greatest.2 hOther

end IsHeaviest

/-- Going through alternatives finds their weight. -/
theorem isHeaviest_foldl (scopes : List String) (alternatives : List Alternative) :
    IsHeaviest scopes alternatives (alternatives.foldl (heavier scopes) .notApplicable) := by
  induction alternatives using List.reverseRecOn with
  | nil => exact .nil scopes
  | append_singleton alternatives alternative ih =>
    rw [List.foldl_append]
    exact ih.heavier alternative

/-- The weight of a selector for a scope path is the most that one of its alternatives scores, or
nothing, with the priority of the first alternative that scores so much.  Every selector has a score
just where it holds as a condition, and it is never negative. -/
theorem weightOf_isHeaviest (selector scope : String) :
    IsHeaviest (Scope.split scope) (read selector) (weightOf selector scope) ∧
    ∀ (part : Selector) (scopes : List String),
      (∀ value, part.score scopes = some value → 0 ≤ value) ∧
      ((part.score scopes).isSome = true ↔ Holds scopes part) :=
  ⟨isHeaviest_foldl (Scope.split scope) (read selector),
    fun part _ => ⟨score_nonneg part, isSome_score_iff part⟩⟩

end GrammarSearch.Selector
