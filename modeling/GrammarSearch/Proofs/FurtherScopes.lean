import GrammarSearch.Proofs.SelectorWeights
import Mathlib.Data.List.NodupEquivFin
import Mathlib.Order.WellFounded

/-!
# Opening further scopes

Where a selector has no exclusion, scopes that are opened besides those of a path never take its
score away and never lower it, wherever in the path they stand.

For a path of names this is seen from choices of scopes and not from the walk that finds the score,
since that may take quite different scopes of the longer path.  A choice among the scopes of the
shorter path is one among those of the longer path too (`Placement.map`), where each of its scopes
stands no less far in (`worth_le_worth_map`); and the score is the best of all choices.
Conjunctions and choices of selectors are monotone in their parts, so that the rest is an induction
on the selector.

## Main results

* `exists_score_ge`: a selector without exclusions scores no less where there are more scopes.
* `weightOf_value_le`: nor does the text of one weigh less.
-/

namespace GrammarSearch.Selector

/-! ## Choices in a longer path -/

section Choices

variable {names scopes wider : List String} {places : List Nat}

/-- A choice of scopes is one in a longer path, by the places where its scopes stand there. -/
theorem Placement.map (h : Placement names scopes places) {place : Nat ↪o Nat}
    (hPlace : ∀ index, scopes[index]? = wider[place index]?) :
    Placement names wider (places.map place) := by
  constructor
  · refine List.forall₂_map_right_iff.2 (h.heads.imp fun name index ⟨scope, hScope, hHeads⟩ => ?_)
    exact ⟨scope, (hPlace index).symm.trans hScope, hHeads⟩
  · exact h.ascending.map place fun _ _ hLt => place.strictMono hLt

/-- Scopes that stand no less far in count no less. -/
theorem worth_le_worth_map {place : Nat → Nat} (hPlace : ∀ index, index ≤ place index)
    (names : List String) (places : List Nat) :
    worth names places ≤ worth names (places.map place) := by
  fun_induction worth names places with
  | case1 name names index places ih =>
    exact Int.add_le_add (placeWorth_le (hPlace index) name) ih
  | case2 names places hEmpty => exact worth_nonneg names (places.map place)

/-- A path of names scores no less where there are more scopes. -/
theorem exists_score_path_ge (hSub : scopes.Sublist wider) {value : Int}
    (hScore : score scopes (path names) = some value) :
    ∃ more, score wider (path names) = some more ∧ value ≤ more := by
  obtain ⟨place, hPlace⟩ := List.sublist_iff_exists_orderEmbedding_getElem?_eq.1 hSub
  have hNarrow : IsBestWorth names scopes (some value) :=
    hScore ▸ isBestWorth_score_path names scopes
  obtain ⟨places, hPlacement, rfl⟩ := hNarrow.1
  have hMapped : Placement names wider (places.map place) := hPlacement.map hPlace
  have hWide := isBestWorth_score_path names wider
  cases hMore : score wider (path names) with
  | none =>
    rw [hMore] at hWide
    exact absurd hMapped (hWide _)
  | some more =>
    rw [hMore] at hWide
    have hBest : worth names (places.map place) ≤ more := hWide.2 ⟨_, hMapped, rfl⟩
    have hFurther := worth_le_worth_map (fun _ => place.strictMono.le_apply) names places
    exact ⟨more, rfl, Int.le_trans hFurther hBest⟩

end Choices

/-! ## What conjunctions and choices score -/

section Parts

variable {scopes : List String} {part : Selector} {parts : List Selector} {value : Int}

theorem sumScore_cons_eq_some_iff :
    sumScore scopes (part :: parts) = some value ↔
      ∃ first rest, part.score scopes = some first ∧ sumScore scopes parts = some rest ∧
        first + rest = value := by
  rw [sumScore]
  cases part.score scopes with
  | none => simp
  | some first =>
    cases sumScore scopes parts with
    | none => simp
    | some rest => simp

/-- The best score is that of the first part or the best of the others. -/
theorem eq_some_of_bestScore_cons (h : bestScore scopes (part :: parts) = some value) :
    part.score scopes = some value ∨ bestScore scopes parts = some value := by
  rw [bestScore] at h
  cases hFirst : part.score scopes with
  | none =>
    rw [hFirst] at h
    exact .inr h
  | some first =>
    cases hRest : bestScore scopes parts with
    | none =>
      rw [hFirst, hRest] at h
      exact .inl h
    | some rest =>
      rw [hFirst, hRest] at h
      rcases Int.le_total first rest with hLe | hLe
      · exact .inr ((congrArg some (Int.max_eq_right hLe)).symm.trans h)
      · exact .inl ((congrArg some (Int.max_eq_left hLe)).symm.trans h)

/-- The best score is no less than that of the first part and than the best of the others. -/
theorem exists_bestScore_cons_ge
    (h : part.score scopes = some value ∨ bestScore scopes parts = some value) :
    ∃ best, bestScore scopes (part :: parts) = some best ∧ value ≤ best := by
  rw [bestScore]
  rcases h with hFirst | hRest
  · rw [hFirst]
    cases bestScore scopes parts with
    | none => exact ⟨value, rfl, Int.le_refl value⟩
    | some rest => exact ⟨max value rest, rfl, Int.le_max_left value rest⟩
  · rw [hRest]
    cases part.score scopes with
    | none => exact ⟨value, rfl, Int.le_refl value⟩
    | some first => exact ⟨max first value, rfl, Int.le_max_right first value⟩

end Parts

/-! ## Selectors without exclusions -/

mutual

/-- Whether an exclusion stands anywhere in a selector. -/
def hasExclusion : Selector → Bool
  | path _ => false
  | all parts => anyHasExclusion parts
  | any parts => anyHasExclusion parts
  | exclude _ => true

/-- Whether an exclusion stands anywhere in some selectors. -/
def anyHasExclusion : List Selector → Bool
  | [] => false
  | part :: parts => part.hasExclusion || anyHasExclusion parts

end

section Wider

variable {scopes wider : List String}

mutual

/-- Without an exclusion, a selector scores no less where there are more scopes. -/
theorem exists_score_ge (hSub : scopes.Sublist wider) :
    ∀ selector : Selector, selector.hasExclusion = false → ∀ value,
      selector.score scopes = some value → ∃ more, selector.score wider = some more ∧ value ≤ more
  | path _, _, _, hScore => exists_score_path_ge hSub hScore
  | all parts, hNone, value, hScore => by
    rw [score] at hScore ⊢
    exact exists_sumScore_ge hSub parts hNone value hScore
  | any parts, hNone, value, hScore => by
    rw [score] at hScore ⊢
    exact exists_bestScore_ge hSub parts hNone value hScore

theorem exists_sumScore_ge (hSub : scopes.Sublist wider) :
    ∀ parts : List Selector, anyHasExclusion parts = false → ∀ value,
      sumScore scopes parts = some value → ∃ more, sumScore wider parts = some more ∧ value ≤ more
  | [], _, value, hScore => ⟨value, hScore, Int.le_refl value⟩
  | part :: parts, hNone, value, hScore => by
    rw [anyHasExclusion, Bool.or_eq_false_iff] at hNone
    obtain ⟨first, rest, hFirst, hRest, rfl⟩ := sumScore_cons_eq_some_iff.1 hScore
    obtain ⟨moreFirst, hMoreFirst, hLeFirst⟩ := exists_score_ge hSub part hNone.1 first hFirst
    obtain ⟨moreRest, hMoreRest, hLeRest⟩ := exists_sumScore_ge hSub parts hNone.2 rest hRest
    exact ⟨moreFirst + moreRest, sumScore_cons_eq_some_iff.2 ⟨_, _, hMoreFirst, hMoreRest, rfl⟩,
      Int.add_le_add hLeFirst hLeRest⟩

theorem exists_bestScore_ge (hSub : scopes.Sublist wider) :
    ∀ parts : List Selector, anyHasExclusion parts = false → ∀ value,
      bestScore scopes parts = some value → ∃ more, bestScore wider parts = some more ∧ value ≤ more
  | [], _, _, hScore => by
    rw [bestScore] at hScore
    contradiction
  | part :: parts, hNone, value, hScore => by
    rw [anyHasExclusion, Bool.or_eq_false_iff] at hNone
    obtain ⟨more, hMore, hLe⟩ : ∃ more,
        (part.score wider = some more ∨ bestScore wider parts = some more) ∧ value ≤ more := by
      rcases eq_some_of_bestScore_cons hScore with hFirst | hRest
      · obtain ⟨more, hMore, hLe⟩ := exists_score_ge hSub part hNone.1 value hFirst
        exact ⟨more, .inl hMore, hLe⟩
      · obtain ⟨more, hMore, hLe⟩ := exists_bestScore_ge hSub parts hNone.2 value hRest
        exact ⟨more, .inr hMore, hLe⟩
    obtain ⟨best, hBest, hLeBest⟩ := exists_bestScore_cons_ge hMore
    exact ⟨best, hBest, Int.le_trans hLe hLeBest⟩

end

/-- Nor does a text weigh less, none of whose alternatives has an exclusion. -/
theorem weightOf_value_le {text scope wide : String}
    (hSub : (Scope.split scope).Sublist (Scope.split wide))
    (hNone : ∀ alternative ∈ read text, alternative.selector.hasExclusion = false) :
    (weightOf text scope).value ≤ (weightOf text wide).value := by
  have hNarrow : IsHeaviest (Scope.split scope) (read text) (weightOf text scope) :=
    isHeaviest_foldl _ _
  have hWide : IsHeaviest (Scope.split wide) (read text) (weightOf text wide) :=
    isHeaviest_foldl _ _
  rcases hNarrow.greatest.1 with hZero | ⟨alternative, hMem, hScore⟩
  · rw [hZero]
    exact weightOf_value_nonneg text wide
  · obtain ⟨more, hMore, hLe⟩ :=
      exists_score_ge hSub alternative.selector (hNone alternative hMem) _ hScore
    exact Int.le_trans hLe (hWide.score_le hMem hMore)

/-- Where scopes are opened besides those of a path, a selector without exclusions still has a score
if it had one, and none that is lower.  So an injection whose text has none stays applicable and
weighs no less. -/
theorem further_scopes_never_lower (hSub : scopes.Sublist wider) :
    (∀ selector : Selector, selector.hasExclusion = false → ∀ value,
      selector.score scopes = some value →
        ∃ more, selector.score wider = some more ∧ value ≤ more) ∧
    ∀ text scope wide : String, Scope.split scope = scopes → Scope.split wide = wider →
      (∀ alternative ∈ read text, alternative.selector.hasExclusion = false) →
      (weightOf text scope).value ≤ (weightOf text wide).value ∧
      ((weightOf text scope).applies = true → (weightOf text wide).applies = true) := by
  refine ⟨exists_score_ge hSub, ?_⟩
  rintro text scope wide rfl rfl hNone
  have hLe := weightOf_value_le hSub hNone
  refine ⟨hLe, fun hApplies => ?_⟩
  exact decide_eq_true (Int.lt_of_lt_of_le (of_decide_eq_true hApplies) hLe)

/-- What is read from `L:(a | b) (a b, c)`. -/
def nestedChoices : Selector :=
  .all [.any [.path ["a"], .path ["b"]], .any [.path ["a", "b"], .path ["c"]]]

/-- In the longer path every name takes another scope than in the shorter one. -/
theorem further_scopes_taken_instead :
    ["a", "b.c"].Sublist ["b", "a", "a.x", "b.c", "b"] ∧
    nestedChoices.hasExclusion = false ∧
    nestedChoices.score ["a", "b.c"] = some 503 ∧
    (∃ more, nestedChoices.score ["b", "a", "a.x", "b.c", "b"] = some more ∧ 503 ≤ more) ∧
    read "L:(a | b) (a b, c)" = [⟨.high, nestedChoices⟩] ∧
    (weightOf "L:(a | b) (a b, c)" "a b.c").applies = true ∧
    (weightOf "L:(a | b) (a b, c)" "b a a.x b.c b").applies = true := by
  have hSub : ["a", "b.c"].Sublist ["b", "a", "a.x", "b.c", "b"] := by decide
  have hNone : nestedChoices.hasExclusion = false := rfl
  have hScore : nestedChoices.score ["a", "b.c"] = some 503 := by decide
  have hRead : read "L:(a | b) (a b, c)" = [⟨.high, nestedChoices⟩] := by decide +kernel
  have hApplies : (weightOf "L:(a | b) (a b, c)" "a b.c").applies = true := by decide +kernel
  obtain ⟨hScores, hWeights⟩ := further_scopes_never_lower hSub
  refine ⟨hSub, hNone, hScore, hScores nestedChoices hNone 503 hScore, hRead, hApplies, ?_⟩
  refine (hWeights _ "a b.c" "b a a.x b.c b" (by decide +kernel) (by decide +kernel) ?_).2 hApplies
  rw [hRead]
  exact List.forall_mem_singleton.2 hNone

end Wider

end GrammarSearch.Selector
