import GrammarSearch.Grammar.Compilation
import Mathlib.Data.List.Induction
import Mathlib.Data.Nat.Digits.Defs

/-!
# Which groups get which names

The captures of a rule are written under keys, and what comes out in the end are the groups of a
match that have a name and some text.  In between keys are read as numbers, of which several may be
the same, so a key can take the name of another one away; keys are sorted as texts, groups as
numbers; and a capture without a name counts for nothing, while one with an empty name still takes
the place of others.

`LastName` says what all this comes to: the name of a group is that of the last key for it that has
one.  Going through the keys in order keeps the captures so (`mem_captures_iff`), because a later
key replaces what an earlier one has put.

## Main results

* `isIndex_iff`: which keys are read as which numbers.
* `mem_captures_iff`: the captures of a rule, by what is written.
* `named_groups_have_last_names`: the named groups of a match.
-/

namespace GrammarSearch

/-! ## Keys -/

/-- A key is a number: decimal digits of a number that fits a machine word, maybe after a plus
sign. -/
def IsIndex (key : String) (group : Nat) : Prop :=
  ∃ digits : List Char, (key.toList = digits ∨ key.toList = '+' :: digits) ∧
    digits ≠ [] ∧ (∀ c ∈ digits, c.isDigit = true) ∧ group < Text.wordSize ∧
    Nat.ofDigits 10 (digits.reverse.map fun c => c.toNat - '0'.toNat) = group

namespace Text

variable {text digits : List Char} {group : Nat}

/-- Digits read from the first one on have the value of their number. -/
theorem digitsValue_eq (digits : List Char) :
    digitsValue digits = Nat.ofDigits 10 (digits.reverse.map fun c => c.toNat - '0'.toNat) := by
  induction digits using List.reverseRecOn with
  | nil => rfl
  | append_singleton digits c ih =>
    rw [digitsValue, List.foldl_append, ← digitsValue, ih, List.reverse_append,
      List.reverse_singleton, List.singleton_append, List.map_cons, Nat.ofDigits_cons]
    show _ * 10 + (c.toNat - '0'.toNat) = (c.toNat - '0'.toNat) + 10 * _
    rw [Nat.mul_comm, Nat.add_comm]

theorem index?_eq_some_iff :
    index? digits = some group ↔
      digits ≠ [] ∧ (∀ c ∈ digits, c.isDigit = true) ∧ group < wordSize ∧
        Nat.ofDigits 10 (digits.reverse.map fun c => c.toNat - '0'.toNat) = group := by
  rw [index?, Option.ite_none_right_eq_some, List.all_eq_true, Option.some.injEq, digitsValue_eq]
  constructor
  · rintro ⟨⟨hSome, hDigits, hWord⟩, rfl⟩
    exact ⟨hSome, hDigits, hWord, rfl⟩
  · rintro ⟨hSome, hDigits, hWord, rfl⟩
    exact ⟨⟨hSome, hDigits, hWord⟩, rfl⟩

theorem signedIndex?_eq_some_iff :
    signedIndex? text = some group ↔
      ∃ digits, (text = digits ∨ text = '+' :: digits) ∧ index? digits = some group := by
  constructor
  · intro hIndex
    unfold signedIndex? at hIndex
    split at hIndex
    · next digits => exact ⟨digits, .inr rfl, hIndex⟩
    · exact ⟨text, .inl rfl, hIndex⟩
  · rintro ⟨digits, rfl | rfl, hIndex⟩
    · unfold signedIndex?
      split
      · -- A plus sign is no digit.
        exact absurd ((index?_eq_some_iff.1 hIndex).2.1 '+' List.mem_cons_self) (by decide)
      · exact hIndex
    · exact hIndex

end Text

theorem isIndex_iff {key : String} {group : Nat} :
    IsIndex key group ↔ Text.signedIndex? key.toList = some group := by
  rw [IsIndex, Text.signedIndex?_eq_some_iff]
  simp only [Text.index?_eq_some_iff]

/-! ## Captures by what is written -/

namespace Captures

variable {captures : Captures} {group index : Nat} {name text : String}

/-- What is named after naming a group: that group as it was just named, and the others as before.
-/
theorem mem_put_iff (hSorted : captures.Sorted) :
    (index, text) ∈ put captures group name ↔
      index = group ∧ text = name ∨ index ≠ group ∧ (index, text) ∈ captures := by
  induction captures with
  | nil => simp [put]
  | cons entry rest ih =>
    obtain ⟨other, old⟩ := entry
    obtain ⟨hHead, hRest⟩ := List.pairwise_cons.1 hSorted
    have hBehind (hMem : (index, text) ∈ rest) : other < index := hHead _ hMem
    simp only [put]
    split
    · next hLt =>
      have hOther : (index, text) ∈ (other, old) :: rest → index ≠ group := by
        rintro hMem rfl
        rcases List.mem_cons.1 hMem with hSame | hMem
        · cases hSame
          exact Nat.lt_irrefl _ hLt
        · exact Nat.lt_asymm hLt (hBehind hMem)
      rw [List.mem_cons, Prod.mk.injEq, and_iff_right_of_imp hOther]
    · split
      · next hSame =>
        subst hSame
        have hOther : (index, text) ∈ rest → index ≠ group :=
          fun hMem => Nat.ne_of_gt (hBehind hMem)
        simp only [List.mem_cons, Prod.mk.injEq]
        constructor
        · rintro (hNew | hMem)
          · exact .inl hNew
          · exact .inr ⟨hOther hMem, .inr hMem⟩
        · rintro (hNew | ⟨hNot, ⟨hSame, -⟩ | hMem⟩)
          · exact .inl hNew
          · exact absurd hSame hNot
          · exact .inr hMem
      · next hNot hNe =>
        have hOther : index = other → index ≠ group := fun hSame hGroup => hNe (hGroup ▸ hSame)
        rw [List.mem_cons, ih hRest, List.mem_cons, Prod.mk.injEq]
        constructor
        · rintro (⟨hIndex, hText⟩ | hNew | ⟨hGroup, hMem⟩)
          · exact .inr ⟨hOther hIndex, .inl ⟨hIndex, hText⟩⟩
          · exact .inl hNew
          · exact .inr ⟨hGroup, .inr hMem⟩
        · rintro (hNew | ⟨hGroup, hOld | hMem⟩)
          · exact .inr (.inl hNew)
          · exact .inl hOld
          · exact .inr (.inr ⟨hGroup, hMem⟩)

theorem sorted_ofList (entries : List (Nat × String)) : (ofList entries).Sorted := by
  induction entries using List.reverseRecOn with
  | nil => exact List.Pairwise.nil
  | append_singleton entries entry ih =>
    rw [ofList, List.foldl_append]
    exact sorted_put ih entry.1 entry.2

end Captures

/-- Captures as they are written give a group a name under a key. -/
def GivesName (source : Table CaptureSource) (key : String) (group : Nat) (name : String) : Prop :=
  IsIndex key group ∧ ∃ capture, (key, capture) ∈ source ∧ capture.name = some name

/-- The name of a group: the one given under the last of the keys that give it a name. -/
def LastName (source : Table CaptureSource) (group : Nat) (name : String) : Prop :=
  ∃ key, GivesName source key group name ∧
    ∀ other text, GivesName source other group text → other ≤ key

section Written

variable {source : Table CaptureSource} {key : String} {capture : CaptureSource}
variable {group : Nat} {name text : String}

theorem givesName_concat_iff {other : String} :
    GivesName (source ++ [(key, capture)]) other group name ↔
      GivesName source other group name ∨
        other = key ∧ IsIndex key group ∧ capture.name = some name := by
  constructor
  · rintro ⟨hIndex, own, hMem, hName⟩
    rcases List.mem_append.1 hMem with hEarlier | hLast
    · exact .inl ⟨hIndex, own, hEarlier, hName⟩
    · cases List.mem_singleton.1 hLast
      exact .inr ⟨rfl, hIndex, hName⟩
  · rintro (⟨hIndex, own, hMem, hName⟩ | ⟨rfl, hIndex, hName⟩)
    · exact ⟨hIndex, own, List.mem_append_left _ hMem, hName⟩
    · exact ⟨hIndex, capture, List.mem_append_right source List.mem_cons_self, hName⟩

theorem GivesName.lt (h : GivesName source key group name) {bound : String}
    (hKeys : ∀ entry ∈ source, entry.1 < bound) : key < bound := by
  obtain ⟨-, own, hMem, -⟩ := h
  exact hKeys _ hMem

/-- The last key has the last word on its group. -/
theorem lastName_concat_of_index (hKeys : ∀ entry ∈ source, entry.1 < key)
    (hIndex : IsIndex key group) (hName : capture.name = some text) :
    LastName (source ++ [(key, capture)]) group name ↔ name = text := by
  have hLast : GivesName (source ++ [(key, capture)]) key group text :=
    givesName_concat_iff.2 (.inr ⟨rfl, hIndex, hName⟩)
  constructor
  · rintro ⟨other, hOther, hGreatest⟩
    rcases givesName_concat_iff.1 hOther with hEarlier | ⟨-, -, hSame⟩
    · exact absurd (hEarlier.lt hKeys) (String.not_lt.2 (hGreatest key text hLast))
    · exact Option.some.inj (hSame.symm.trans hName)
  · rintro rfl
    refine ⟨key, hLast, fun other text hOther => ?_⟩
    rcases givesName_concat_iff.1 hOther with hEarlier | ⟨rfl, -, -⟩
    · exact String.not_lt.1 (String.lt_asymm (hEarlier.lt hKeys))
    · exact String.le_refl _

/-- A key that gives a group no name says nothing about it. -/
theorem lastName_concat_of_not (hNot : IsIndex key group → capture.name = none) :
    LastName (source ++ [(key, capture)]) group name ↔ LastName source group name := by
  have hSame (other text : String) : GivesName (source ++ [(key, capture)]) other group text ↔
      GivesName source other group text := by
    rw [givesName_concat_iff, or_iff_left]
    rintro ⟨-, hIndex, hName⟩
    rw [hNot hIndex] at hName
    contradiction
  simp only [LastName, hSame]

theorem captures_concat (source : Table CaptureSource) (key : String) (capture : CaptureSource) :
    Compilation.captures (source ++ [(key, capture)]) =
      match Text.signedIndex? key.toList, capture.name with
      | some group, some name => (Compilation.captures source).put group name
      | _, _ => Compilation.captures source := by
  rw [Compilation.captures, List.filterMap_append, Captures.ofList, List.foldl_append]
  cases hIndex : Text.signedIndex? key.toList <;> cases hName : capture.name <;>
    simp [hIndex, hName, Compilation.captures, Captures.ofList]

theorem sorted_captures (source : Table CaptureSource) : (Compilation.captures source).Sorted :=
  Captures.sorted_ofList _

/-- The captures of a rule are the last names of its groups. -/
theorem mem_captures_iff (hKeys : source.Pairwise fun first second => first.1 < second.1) :
    (group, name) ∈ Compilation.captures source ↔ LastName source group name := by
  induction source using List.reverseRecOn generalizing group name with
  | nil =>
    refine iff_of_false List.not_mem_nil ?_
    rintro ⟨key, ⟨-, own, hMem, -⟩, -⟩
    exact List.not_mem_nil hMem
  | append_singleton source entry ih =>
    obtain ⟨key, capture⟩ := entry
    obtain ⟨hBefore, -, hLast⟩ := List.pairwise_append.1 hKeys
    have hKey : ∀ entry ∈ source, entry.1 < key :=
      fun entry hMem => hLast entry hMem _ List.mem_cons_self
    rw [captures_concat]
    cases hIndex : Text.signedIndex? key.toList with
    | none =>
      rw [lastName_concat_of_not fun h => by simp [isIndex_iff, hIndex] at h]
      exact ih hBefore
    | some index =>
      cases hName : capture.name with
      | none =>
        rw [lastName_concat_of_not fun _ => hName]
        exact ih hBefore
      | some text =>
        show (group, name) ∈ (Compilation.captures source).put index text ↔ _
        rw [Captures.mem_put_iff (sorted_captures source), ih hBefore]
        by_cases hGroup : group = index
        · subst hGroup
          rw [lastName_concat_of_index hKey (isIndex_iff.2 hIndex) hName]
          simp
        · rw [lastName_concat_of_not fun h => by simp [isIndex_iff, hIndex, Ne.symm hGroup] at h]
          simp [hGroup]

end Written

/-! ## The named groups of a match -/

namespace Captures

variable {captures : Captures} {hit : Match}

/-- What a single capture gives for a match. -/
def found? (hit : Match) (entry : Nat × String) : Option NamedSpan :=
  match hit.span? entry.1 with
  | some span =>
    if entry.2.isEmpty || span.isEmpty then none else some ⟨entry.1, span, entry.2⟩
  | none => none

theorem named_eq (captures : Captures) (hit : Match) :
    captures.named hit = captures.filterMap (found? hit) := rfl

theorem found?_eq_some_iff {entry : Nat × String} {found : NamedSpan} :
    found? hit entry = some found ↔
      entry = (found.group, found.name) ∧ hit.groups[found.group]? = some found.span ∧
        found.span.start < found.span.stop ∧ found.name ≠ "" := by
  obtain ⟨group, name⟩ := entry
  constructor
  · intro hFound
    rw [found?] at hFound
    cases hSpan : hit.span? group with
    | none => simp [hSpan] at hFound
    | some span =>
      simp only [hSpan, Option.ite_none_left_eq_some, Option.some.injEq, Bool.or_eq_true,
        not_or] at hFound
      obtain ⟨⟨hName, hText⟩, rfl⟩ := hFound
      refine ⟨rfl, hSpan, ?_, ?_⟩
      · simpa [Span.isEmpty] using hText
      · simpa using hName
  · rintro ⟨hEntry, hSpan, hText, hName⟩
    cases hEntry
    have hKept : (found.name.isEmpty || found.span.isEmpty) = false := by
      simp [Span.isEmpty, hName, hText]
    simp only [found?, Match.span?, hSpan, hKept]
    rfl

/-- Named groups come in the order of the captures. -/
theorem pairwise_named (hSorted : captures.Sorted) (hit : Match) :
    (captures.named hit).Pairwise fun first second => first.group < second.group := by
  rw [named_eq]
  refine List.Pairwise.filterMap _ ?_ hSorted
  intro entry other hLt first hFirst second hSecond
  rw [(found?_eq_some_iff.1 hFirst).1, (found?_eq_some_iff.1 hSecond).1] at hLt
  exact hLt

end Captures

/-- The named groups of a match come by strictly increasing group.  They are the groups that have a
last name, which is not empty, and a span with some text in it. -/
theorem named_groups_have_last_names {source : Table CaptureSource}
    (hKeys : source.Pairwise fun first second => first.1 < second.1) (hit : Match) :
    (((Compilation.captures source).named hit).Pairwise fun first second =>
      first.group < second.group) ∧
    ∀ group span name, ⟨group, span, name⟩ ∈ (Compilation.captures source).named hit ↔
      LastName source group name ∧ hit.groups[group]? = some span ∧ span.start < span.stop ∧
        name ≠ "" := by
  refine ⟨Captures.pairwise_named (sorted_captures source) hit, fun group span name => ?_⟩
  rw [Captures.named_eq, List.mem_filterMap]
  simp only [Captures.found?_eq_some_iff, mem_captures_iff hKeys]
  constructor
  · rintro ⟨entry, hLast, rfl, hSpan⟩
    exact ⟨hLast, hSpan⟩
  · rintro ⟨hLast, hSpan⟩
    exact ⟨_, hLast, rfl, hSpan⟩

/-- Keys in the order of their bytes: a name is taken away, by another one or by an empty one, and
`2` has no name to take away that of `+2`. -/
def crossedKeys : Table CaptureSource :=
  [("+2", ⟨some "kept"⟩), ("01", ⟨some "early"⟩), ("03", ⟨some "gone"⟩), ("1", ⟨some "late"⟩),
    ("2", ⟨none⟩), ("3", ⟨some ""⟩), ("name", ⟨some "stray"⟩)]

theorem named_groups_of_crossed_keys :
    (crossedKeys.Pairwise fun first second => first.1 < second.1) ∧
    (Compilation.captures crossedKeys).named ⟨[⟨0, 9⟩, ⟨1, 3⟩, ⟨4, 6⟩, ⟨6, 8⟩]⟩ =
      [⟨1, ⟨1, 3⟩, "late"⟩, ⟨2, ⟨4, 6⟩, "kept"⟩] ∧
    LastName crossedKeys 1 "late" ∧ LastName crossedKeys 2 "kept" ∧
    ¬ LastName crossedKeys 1 "early" := by
  have hKeys : crossedKeys.Pairwise fun first second => first.1 < second.1 := by decide
  have hNamed : (Compilation.captures crossedKeys).named ⟨[⟨0, 9⟩, ⟨1, 3⟩, ⟨4, 6⟩, ⟨6, 8⟩]⟩ =
      [⟨1, ⟨1, 3⟩, "late"⟩, ⟨2, ⟨4, 6⟩, "kept"⟩] := by decide
  have hMem := (named_groups_have_last_names hKeys ⟨[⟨0, 9⟩, ⟨1, 3⟩, ⟨4, 6⟩, ⟨6, 8⟩]⟩).2
  rw [hNamed] at hMem
  refine ⟨hKeys, hNamed, ((hMem 1 ⟨1, 3⟩ "late").1 (by decide)).1,
    ((hMem 2 ⟨4, 6⟩ "kept").1 (by decide)).1, fun hEarly => ?_⟩
  have hFound := (hMem 1 ⟨1, 3⟩ "early").2 ⟨hEarly, rfl, by decide, by decide⟩
  exact absurd hFound (by decide)

end GrammarSearch
