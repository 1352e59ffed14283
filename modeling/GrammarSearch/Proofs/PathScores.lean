import GrammarSearch.Selector.Basic
import Mathlib.Data.List.Forall2
import Mathlib.Order.Bounds.Basic

/-!
# Scores of paths

A path of names asks for scopes in that order.  A `Placement` is a choice of scopes that gives it
what it asks for, by the places of the scopes in the list, and `worth` is what a choice counts.  The
score looks at a single choice: from the innermost scope outwards, each name takes the first scope
that it can.  No choice counts more, because a name that stands further in counts more and leaves
more scopes to the names before it (`Placement.exchange`).

## Main results

* `isBestWorth_climb`: what is found from the innermost scope outwards is the best of all choices.
* `score_path_isGreatest`: the score of a path is the greatest worth of a choice, and there is none
  exactly if there is no choice.
-/

namespace GrammarSearch

/-! ## Names and atoms -/

/-- The pieces between separators are those of the library's `splitOnP`. -/
theorem Text.pieces_eq_splitOnP (isSeparator : Char → Bool) (text : List Char) :
    pieces isSeparator text = text.splitOnP isSeparator := by
  induction text with
  | nil => rw [pieces, List.splitOnP_nil]
  | cons c rest ih =>
    rw [pieces, List.splitOnP_cons_eq_if_modifyHead, ih]
    cases hRest : rest.splitOnP isSeparator with
    | nil => exact absurd (ih.trans hRest) (pieces_ne_nil isSeparator rest)
    | cons piece others => rfl

namespace Scope

/-- A name stands for its scope and for all that are more specific: it is empty, the scope itself,
or what precedes a dot of the scope. -/
def Heads (name scope : String) : Prop :=
  name = "" ∨ name = scope ∨ ∃ rest, scope = name ++ "." ++ rest

/-- What stands between the dots of a name, where that is something. -/
def atoms (name : String) : List (List Char) :=
  (name.toList.splitOn '.').filter fun atom => !atom.isEmpty

/-- A name covers the scopes that it stands for. -/
theorem covers_iff {name scope : String} : covers name scope = true ↔ Heads name scope := by
  rw [covers, coversChars_iff, Heads]
  refine or_congr String.toList_eq_nil_iff (or_congr String.toList_inj ⟨?_, ?_⟩)
  · rintro ⟨rest, hScope⟩
    refine ⟨String.ofList rest, String.toList_inj.1 ?_⟩
    simp [hScope]
  · rintro ⟨rest, rfl⟩
    exact ⟨rest.toList, by simp⟩

theorem atomCount_eq (name : String) : atomCount name = (atoms name).length := by
  rw [atomCount, atoms, Text.words, Text.pieces_eq_splitOnP]
  rfl

end Scope

namespace Selector

/-! ## Choices of scopes -/

/-- A name stands for the scope at a place, counted from the outermost one. -/
def HeadsAt (scopes : List String) (name : String) (place : Nat) : Prop :=
  ∃ scope, scopes[place]? = some scope ∧ Scope.Heads name scope

/-- A choice of scopes, by their places, for the names of a path: each name stands for its scope,
and the scopes of later names are further in. -/
structure Placement (names scopes : List String) (places : List Nat) : Prop where
  heads : List.Forall₂ (HeadsAt scopes) names places
  ascending : places.Pairwise (· < ·)

/-- What a name at a place counts: a hundred for the scope and for each one around it, and one for
every atom of the name. -/
def placeWorth (name : String) (place : Nat) : Int :=
  (place + 1) * 100 + (Scope.atoms name).length

/-- What a choice of scopes counts: the sum over its names. -/
def worth : (names : List String) → (places : List Nat) → Int
  | name :: names, place :: places => placeWorth name place + worth names places
  | _, _ => 0

theorem nameScore_eq (name : String) (place : Nat) :
    nameScore name place = placeWorth name place := by
  rw [nameScore, placeWorth, Scope.atomCount_eq]

theorem placeWorth_nonneg (name : String) (place : Nat) : 0 ≤ placeWorth name place := by
  unfold placeWorth
  omega

theorem placeWorth_le {place further : Nat} (h : place ≤ further) (name : String) :
    placeWorth name place ≤ placeWorth name further := by
  unfold placeWorth
  omega

theorem worth_nonneg (names : List String) (places : List Nat) : 0 ≤ worth names places := by
  fun_induction worth names places with
  | case1 name names place places ih =>
    have hFirst : 0 ≤ placeWorth name place := placeWorth_nonneg name place
    omega
  | case2 => exact Int.le_refl 0

theorem worth_concat {names : List String} {places : List Nat} (h : names.length = places.length)
    (name : String) (place : Nat) :
    worth (names ++ [name]) (places ++ [place]) = worth names places + placeWorth name place := by
  induction names generalizing places with
  | nil =>
    obtain rfl : places = [] := List.eq_nil_of_length_eq_zero h.symm
    show placeWorth name place + 0 = 0 + placeWorth name place
    omega
  | cons first names ih =>
    cases places with
    | nil => contradiction
    | cons outer places =>
      have hRest := ih (Nat.succ.inj h)
      show placeWorth first outer + worth (names ++ [name]) (places ++ [place]) =
        placeWorth first outer + worth names places + placeWorth name place
      omega

section Choices

variable {names scopes : List String} {places : List Nat} {name scope : String} {place : Nat}

theorem HeadsAt.lt_length (h : HeadsAt scopes name place) : place < scopes.length := by
  obtain ⟨scope, hScope, -⟩ := h
  exact (List.getElem?_eq_some_iff.1 hScope).1

/-- With one more scope further in, a name stands for what it stood for, and for the new scope if it
can. -/
theorem headsAt_concat_iff :
    HeadsAt (scopes ++ [scope]) name place ↔
      HeadsAt scopes name place ∨ place = scopes.length ∧ Scope.Heads name scope := by
  rcases Nat.lt_trichotomy place scopes.length with hOuter | rfl | hBeyond
  · simp [HeadsAt, List.getElem?_append_left hOuter, Nat.ne_of_lt hOuter]
  · simp [HeadsAt]
  · have hNot : ¬ HeadsAt (scopes ++ [scope]) name place := fun h => by
      have hLt := h.lt_length
      rw [List.length_append, List.length_singleton] at hLt
      omega
    have hOld : ¬ HeadsAt scopes name place := fun h => Nat.lt_asymm hBeyond h.lt_length
    simp [hNot, hOld, Nat.ne_of_gt hBeyond]

namespace Placement

theorem nil (scopes : List String) : Placement [] scopes [] :=
  ⟨.nil, .nil⟩

theorem length_eq (h : Placement names scopes places) : names.length = places.length :=
  h.heads.length_eq

theorem lt_length (h : Placement names scopes places) :
    ∀ place ∈ places, place < scopes.length := by
  obtain ⟨hHeads, -⟩ := h
  induction hHeads with
  | nil => exact fun place hMem => absurd hMem List.not_mem_nil
  | cons hFirst _ ih => exact List.forall_mem_cons.2 ⟨hFirst.lt_length, ih⟩

/-- A choice stays one with another scope further in. -/
theorem inward (h : Placement names scopes places) (scope : String) :
    Placement names (scopes ++ [scope]) places :=
  ⟨h.heads.imp fun _ _ hHeads => headsAt_concat_iff.2 (.inl hHeads), h.ascending⟩

/-- The innermost scope serves for one more name. -/
theorem concat (h : Placement names scopes places) (hHeads : Scope.Heads name scope) :
    Placement (names ++ [name]) (scopes ++ [scope]) (places ++ [scopes.length]) := by
  constructor
  · exact List.rel_append (h.inward scope).heads
      (.cons (headsAt_concat_iff.2 (.inr ⟨rfl, hHeads⟩)) .nil)
  · refine List.pairwise_append.2 ⟨h.ascending, List.pairwise_singleton _ _, ?_⟩
    intro place hPlace last hLast
    rw [List.mem_singleton.1 hLast]
    exact h.lt_length place hPlace

/-- Without the innermost scope, a choice of others stays one. -/
theorem outward (h : Placement names (scopes ++ [scope]) places)
    (hPlaces : ∀ place ∈ places, place < scopes.length) : Placement names scopes places := by
  obtain ⟨hHeads, hAscending⟩ := h
  refine ⟨?_, hAscending⟩
  clear hAscending
  induction hHeads with
  | nil => exact .nil
  | cons hFirst _ ih =>
    obtain ⟨hPlace, hRest⟩ := List.forall_mem_cons.1 hPlaces
    refine .cons ?_ (ih hRest)
    rcases headsAt_concat_iff.1 hFirst with hOld | ⟨hInnermost, -⟩
    · exact hOld
    · exact absurd hInnermost (Nat.ne_of_lt hPlace)

/-- The scope of the last name is further in than those of the others. -/
theorem exists_concat (h : Placement (names ++ [name]) scopes places) :
    ∃ earlier place, places = earlier ++ [place] ∧ Placement names scopes earlier ∧
      HeadsAt scopes name place ∧ ∀ other ∈ earlier, other < place := by
  have hReversed := List.forall₂_reverse_iff.2 h.heads
  rw [List.reverse_append, List.reverse_singleton, List.singleton_append,
    List.forall₂_cons_left_iff] at hReversed
  obtain ⟨place, rest, hLast, hRest, hPlaces⟩ := hReversed
  obtain rfl : places = rest.reverse ++ [place] := by
    rw [← List.reverse_reverse places, hPlaces, List.reverse_cons]
  obtain ⟨hAscending, -, hBelow⟩ := List.pairwise_append.1 h.ascending
  have hHeads : List.Forall₂ (HeadsAt scopes) names rest.reverse := by
    rw [← List.forall₂_reverse_iff, List.reverse_reverse]
    exact hRest
  exact ⟨rest.reverse, place, rfl, ⟨hHeads, hAscending⟩, hLast,
    fun other hOther => hBelow other hOther place List.mem_cons_self⟩

theorem eq_nil_of_nil (h : Placement names [] places) : names = [] := by
  cases h.heads with
  | nil => rfl
  | cons hFirst _ => exact absurd hFirst.lt_length (Nat.not_lt_zero _)

/-- Where the last name takes the innermost scope instead of its own, the choice for the names
before it stays one and the whole counts no less. -/
theorem exchange (h : Placement (names ++ [name]) (scopes ++ [scope]) places) :
    ∃ earlier, Placement names scopes earlier ∧
      worth (names ++ [name]) places ≤ worth names earlier + placeWorth name scopes.length := by
  obtain ⟨earlier, place, rfl, hEarlier, hLast, hBelow⟩ := h.exists_concat
  have hPlace : place ≤ scopes.length := by
    have hLt := hLast.lt_length
    rw [List.length_append, List.length_singleton] at hLt
    omega
  refine ⟨earlier, hEarlier.outward fun other hOther => ?_, ?_⟩
  · exact Nat.lt_of_lt_of_le (hBelow other hOther) hPlace
  · rw [worth_concat hEarlier.length_eq]
    exact Int.add_le_add_left (placeWorth_le hPlace name) _

/-- A scope for which the last name does not stand has no part in a choice, if it is the innermost
one. -/
theorem of_not_heads (h : Placement (names ++ [name]) (scopes ++ [scope]) places)
    (hNot : ¬ Scope.Heads name scope) : Placement (names ++ [name]) scopes places := by
  obtain ⟨earlier, place, rfl, -, hLast, hBelow⟩ := h.exists_concat
  have hPlace : place < scopes.length := by
    rcases headsAt_concat_iff.1 hLast with hOld | ⟨-, hHeads⟩
    · exact hOld.lt_length
    · exact absurd hHeads hNot
  refine h.outward fun other hOther => ?_
  rcases List.mem_append.1 hOther with hEarlier | hSame
  · exact Nat.lt_trans (hBelow other hEarlier) hPlace
  · rw [List.mem_singleton.1 hSame]
    exact hPlace

end Placement

end Choices

/-! ## The best choice -/

/-- The most that a choice counts; nothing where there is no choice. -/
def IsBestWorth (names scopes : List String) : Option Int → Prop
  | none => ∀ places, ¬ Placement names scopes places
  | some value => IsGreatest (worth names '' {places | Placement names scopes places}) value

/-- What is found from the innermost scope outwards, last name first, is the best of all choices. -/
theorem isBestWorth_climb (names scopes : List String) :
    IsBestWorth names.reverse scopes.reverse (climb names scopes) := by
  fun_induction climb names scopes with
  | case1 scopes =>
    refine ⟨⟨[], .nil _, rfl⟩, ?_⟩
    rintro value ⟨places, -, rfl⟩
    exact Int.le_refl 0
  | case2 name names =>
    intro places hPlacement
    exact absurd hPlacement.eq_nil_of_nil (by simp)
  | case3 name names scope outer hCovers ih =>
    -- The name takes the innermost scope: by `exchange`, any other choice counts no more.
    have hHeads : Scope.Heads name scope := Scope.covers_iff.1 hCovers
    rw [List.reverse_cons, List.reverse_cons]
    cases hRest : climb names outer with
    | none =>
      rw [hRest] at ih
      intro places hPlacement
      obtain ⟨earlier, hEarlier, -⟩ := hPlacement.exchange
      exact ih earlier hEarlier
    | some rest =>
      rw [hRest] at ih
      obtain ⟨⟨earlier, hEarlier, rfl⟩, hMost⟩ := ih
      have hValue : nameScore name outer.length + worth names.reverse earlier =
          worth names.reverse earlier + placeWorth name outer.reverse.length := by
        rw [nameScore_eq, List.length_reverse, Int.add_comm]
      show IsGreatest _ (nameScore name outer.length + worth names.reverse earlier)
      rw [hValue]
      constructor
      · exact ⟨_, hEarlier.concat hHeads, worth_concat hEarlier.length_eq name _⟩
      · rintro value ⟨places, hPlacement, rfl⟩
        obtain ⟨others, hOthers, hWorth⟩ := hPlacement.exchange
        have hLess : worth names.reverse others ≤ worth names.reverse earlier :=
          hMost ⟨others, hOthers, rfl⟩
        exact Int.le_trans hWorth (Int.add_le_add_right hLess _)
  | case4 name names scope outer hCovers ih =>
    -- No choice can use the innermost scope, so the choices are those without it.
    have hNot : ¬ Scope.Heads name scope := fun hHeads => hCovers (Scope.covers_iff.2 hHeads)
    rw [List.reverse_cons] at ih ⊢
    rw [List.reverse_cons]
    cases hFound : climb (name :: names) outer with
    | none =>
      rw [hFound] at ih
      exact fun places hPlacement => ih places (hPlacement.of_not_heads hNot)
    | some value =>
      rw [hFound] at ih
      obtain ⟨⟨places, hPlacement, rfl⟩, hMost⟩ := ih
      refine ⟨⟨places, hPlacement.inward scope, rfl⟩, ?_⟩
      rintro other ⟨others, hOthers, rfl⟩
      exact hMost ⟨others, hOthers.of_not_heads hNot, rfl⟩

theorem isBestWorth_score_path (names scopes : List String) :
    IsBestWorth names scopes (score scopes (path names)) := by
  have hClimb := isBestWorth_climb names.reverse scopes.reverse
  rw [List.reverse_reverse, List.reverse_reverse] at hClimb
  exact hClimb

/-- The score of a path is the most that a choice of scopes for its names counts, and a path has no
score exactly if there is no choice. -/
theorem score_path_isGreatest (names scopes : List String) :
    (score scopes (path names) = none ↔ ¬ ∃ places, Placement names scopes places) ∧
    ∀ value, score scopes (path names) = some value ↔
      IsGreatest (worth names '' {places | Placement names scopes places}) value := by
  have hBest : IsBestWorth names scopes (score scopes (path names)) :=
    isBestWorth_score_path names scopes
  cases hScore : score scopes (path names) with
  | none =>
    rw [hScore] at hBest
    refine ⟨iff_of_true rfl fun ⟨places, hPlacement⟩ => hBest places hPlacement, fun value => ?_⟩
    refine iff_of_false (by simp) ?_
    rintro ⟨⟨places, hPlacement, -⟩, -⟩
    exact hBest places hPlacement
  | some best =>
    rw [hScore] at hBest
    obtain ⟨places, hPlacement, -⟩ := hBest.1
    refine ⟨iff_of_false (by simp) fun hNone => hNone ⟨places, hPlacement⟩, fun value => ?_⟩
    rw [Option.some.injEq]
    exact ⟨fun hSame => hSame ▸ hBest, fun hGreatest => hBest.unique hGreatest⟩

example : score ["a.b", "a.b", "a", "c"] (path ["a", "a.b"]) = some (101 + 202) := by decide

end Selector

end GrammarSearch
