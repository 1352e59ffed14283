import GrammarSearch.Text.CharClass
import GrammarSearch.Text.Pieces

/-!
# Scopes

A scope is a dot-separated name such as `meta.function.body`. A scope path lists the scopes open at
a place of a text, outermost first, with a space between two of them.

## Main results

* `covers_iff`: a name covers a scope when the scope is the name, or goes on after it with a dot.
-/

namespace GrammarSearch.Scope

/-- The scope path of the present, non-empty names, in order. -/
def path (names : List (Option String)) : String :=
  let present := names.filterMap fun name => name.filter fun text => !text.isEmpty
  String.ofList ([' '].intercalate (present.map String.toList))

/-- The scopes of a path, taken apart at white space. -/
def split (path : String) : List String :=
  (Text.words Text.isBlank path.toList).map String.ofList

/-- Whether `scope` is `name` or goes on after it with a dot; the empty name covers every scope. -/
def coversChars : (name scope : List Char) → Bool
  | [], _ => true
  | _ :: _, [] => false
  | [n], c :: scope => n == c && (scope.isEmpty || scope.head? == some '.')
  | n :: name, c :: scope => n == c && coversChars name scope

/-- Whether a selector's name covers a scope: it is a leading run of the scope's atoms. -/
def covers (name scope : String) : Bool :=
  coversChars name.toList scope.toList

/-- A name covers a scope when it is empty, when it is the scope, or when a dot follows it there. -/
theorem coversChars_iff {name scope : List Char} :
    coversChars name scope = true ↔
      name = [] ∨ name = scope ∨ ∃ rest, scope = name ++ '.' :: rest := by
  fun_induction coversChars name scope with
  | case1 scope => simp
  | case2 n name => simp
  | case3 n c scope =>
    cases scope with
    | nil => simp
    | cons d scope =>
      simp only [List.isEmpty_cons, List.head?_cons, Bool.false_or, Bool.and_eq_true, beq_iff_eq,
        Option.some.injEq, List.cons_append, List.nil_append, List.cons.injEq, reduceCtorEq,
        and_false, false_or]
      constructor
      · rintro ⟨rfl, rfl⟩
        exact ⟨scope, rfl, rfl, rfl⟩
      · rintro ⟨rest, rfl, rfl, -⟩
        exact ⟨rfl, rfl⟩
  | case4 n name c scope hName ih =>
    have hNonempty : name ≠ [] := by
      rintro rfl
      exact hName rfl
    simp only [Bool.and_eq_true, beq_iff_eq, ih, hNonempty, false_or, List.cons_append,
      List.cons.injEq, reduceCtorEq]
    constructor
    · rintro ⟨rfl, rfl | ⟨rest, rfl⟩⟩
      · exact Or.inl ⟨rfl, rfl⟩
      · exact Or.inr ⟨rest, rfl, rfl⟩
    · rintro (⟨rfl, rfl⟩ | ⟨rest, rfl, rfl⟩)
      · exact ⟨rfl, Or.inl rfl⟩
      · exact ⟨rfl, Or.inr ⟨rest, rfl⟩⟩

/-- The number of non-empty atoms of a name, which says how specific it is. -/
def atomCount (name : String) : Nat :=
  (Text.words (· == '.') name.toList).length

end GrammarSearch.Scope
