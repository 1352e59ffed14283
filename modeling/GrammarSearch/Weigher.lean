import GrammarSearch.Selector.Reader
import GrammarSearch.Shelf

/-!
# Weighing selectors

A search is handed a token and gives up as soon as it sees that the token is cancelled. A token
stays cancelled for good.

A weigher says how much the selector of an injection counts for the scope path open at a place, and
which priority it gives. It may keep a state of its own and may cancel tokens when it is asked.
One weigher may put the answers of another one on a shelf, so that a question is passed on only the
first time it is asked since the shelf was last emptied.

## Main results

* `weightOf_value_nonneg`: the selector syntax never weighs below zero.
-/

namespace GrammarSearch

/-! ## Tokens -/

/-- A token that searches are handed. -/
structure CancelToken where
  id : Nat
deriving DecidableEq, Repr, Inhabited

/-- The tokens that are cancelled. -/
structure Cancellations where
  tokens : List CancelToken := []
deriving Repr, Inhabited

namespace Cancellations

/-- Whether a token is cancelled. -/
def holds (cancelled : Cancellations) (token : CancelToken) : Bool :=
  cancelled.tokens.contains token

/-- Cancels a token. -/
def cancel (cancelled : Cancellations) (token : CancelToken) : Cancellations :=
  ⟨token :: cancelled.tokens⟩

/-- Cancels several tokens. -/
def cancelAll (cancelled : Cancellations) (tokens : List CancelToken) : Cancellations :=
  ⟨tokens ++ cancelled.tokens⟩

/-- After cancelling tokens, those and the ones cancelled before are cancelled. -/
@[simp] theorem holds_cancelAll (cancelled : Cancellations) (tokens : List CancelToken)
    (token : CancelToken) :
    (cancelled.cancelAll tokens).holds token =
      (tokens.contains token || cancelled.holds token) := by
  simp [cancelAll, holds, Bool.decide_or]

end Cancellations

/-! ## Weights -/

/-- How much a selector counts for a scope path: not at all unless its value is positive. The value
is an exact integer, as scores are. -/
structure Weight where
  value : Int
  priority : Priority
deriving DecidableEq, Repr, Inhabited

namespace Weight

/-- The weight of a selector that does not apply. -/
def notApplicable : Weight :=
  ⟨0, .normal⟩

/-- Whether a selector of this weight applies. -/
def applies (weight : Weight) : Bool :=
  decide (0 < weight.value)

end Weight

namespace Selector

/-- The weight after one more alternative: it counts if it scores higher than all before it. -/
def heavier (scopes : List String) (best : Weight) (alternative : Alternative) : Weight :=
  match alternative.score scopes with
  | some value => if best.value < value then ⟨value, alternative.priority⟩ else best
  | none => best

/-- The weight of a selector for a scope path: that of its best alternative, the first of equals. -/
def weightOf (selector scope : String) : Weight :=
  (read selector).foldl (heavier (Scope.split scope)) .notApplicable

private theorem le_heavier (scopes : List String) (best : Weight) (alternative : Alternative) :
    best.value ≤ (heavier scopes best alternative).value := by
  simp only [heavier]
  split
  · split
    · next h => exact Int.le_of_lt h
    · exact Int.le_refl _
  · exact Int.le_refl _

private theorem le_foldl_heavier (scopes : List String) (alternatives : List Alternative) :
    ∀ best : Weight, best.value ≤ (alternatives.foldl (heavier scopes) best).value := by
  induction alternatives with
  | nil => exact fun best => Int.le_refl _
  | cons alternative rest ih =>
    exact fun best => Int.le_trans (le_heavier scopes best alternative) (ih _)

/-- The selector syntax never weighs below zero. -/
theorem weightOf_value_nonneg (selector scope : String) : 0 ≤ (weightOf selector scope).value :=
  le_foldl_heavier _ _ .notApplicable

end Selector

/-- What a weigher answers: a weight, its state afterwards and the tokens it cancelled. -/
structure Reply (σ : Type) where
  weight : Weight
  state : σ
  cancelled : List CancelToken := []

/-- Weighs selectors against scope paths, keeping a state. -/
structure Weigher (σ : Type) where
  /-- The state before the first question. -/
  initial : σ
  /-- The answer for a selector and a scope path in a state. -/
  ask (selector scope : String) (state : σ) : Reply σ

namespace Weigher

variable {σ : Type}

/-- A weigher whose weights depend on the selector and the scope path only: in every state it
answers `weight`. -/
def Answers (weigher : Weigher σ) (weight : String → String → Weight) : Prop :=
  ∀ selector scope state, (weigher.ask selector scope state).weight = weight selector scope

/-- The weigher of a function, which keeps nothing and cancels nothing. -/
def ofFunction (weight : String → String → Weight) : Weigher Unit where
  initial := ()
  ask selector scope _ := { weight := weight selector scope, state := () }

/-- The weigher of the selector syntax. -/
def selectors : Weigher Unit :=
  ofFunction Selector.weightOf

theorem answers_ofFunction (weight : String → String → Weight) :
    (ofFunction weight).Answers weight :=
  fun _ _ _ => rfl

/-- The weigher that also cancels the given tokens whenever it is asked about a selector. -/
def cancelling (weigher : Weigher σ) (tokens : String → List CancelToken) : Weigher σ where
  initial := weigher.initial
  ask selector scope state :=
    let reply := weigher.ask selector scope state
    { reply with cancelled := tokens selector ++ reply.cancelled }

/-- A weigher's state and the questions it was asked, latest first. -/
structure Recorded (σ : Type) where
  state : σ
  questions : List (String × String) := []

/-- The weigher that also records every question. -/
def recording (weigher : Weigher σ) : Weigher (Recorded σ) where
  initial := { state := weigher.initial }
  ask selector scope recorded :=
    let reply := weigher.ask selector scope recorded.state
    { weight := reply.weight
      state := ⟨reply.state, (selector, scope) :: recorded.questions⟩
      cancelled := reply.cancelled }

end Weigher

/-! ## Remembered weights -/

namespace Weigher

variable {σ : Type}

/-- A weigher's state and the weights remembered so far. -/
structure Remembered (σ : Type) where
  state : σ
  weights : Shelf (String × String) Weight

namespace Remembered

/-- How many questions are remembered. -/
def size (remembered : Remembered σ) : Nat :=
  remembered.weights.size

/-- A summary that gives the number of remembered questions. -/
def describe (remembered : Remembered σ) : String :=
  s!"CachingWeigher({remembered.size} entries)"

end Remembered

/-- The capacity used where none is given. -/
def defaultCapacity : Nat := 4096

/-- The weigher that remembers the answers of another one on a shelf of the given capacity. -/
def remembering (weigher : Weigher σ) (capacity : Nat) : Weigher (Remembered σ) where
  initial := { state := weigher.initial, weights := { capacity } }
  ask selector scope remembered :=
    match remembered.weights.find? (selector, scope) with
    | some weight => { weight, state := remembered }
    | none =>
      let reply := weigher.ask selector scope remembered.state
      { weight := reply.weight
        state := ⟨reply.state, remembered.weights.put (selector, scope) reply.weight⟩
        cancelled := reply.cancelled }

end Weigher

end GrammarSearch
