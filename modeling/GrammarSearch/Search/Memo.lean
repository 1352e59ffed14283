/-!
# Remembered answers

A memo keeps values under keys, each with the tick of its last use. The clock gives a new tick to
every question; a question that is answered from the memo refreshes its entry, and one that is not
is worked out, which may ask the memo again. Failures are not kept. When there are more entries than
the capacity allows, only the most recently used three quarters of the capacity stay.

Ticks are not bounded, so no two questions ever share one. A clock of 64 bits does the same for as
long as it does not wrap around, that is for `2 ^ 64` questions.

## Main results

* `fetch_of_find?_eq_some`: a question whose key is there is answered without working anything out.
-/

namespace GrammarSearch

/-- A value under a key, with the tick of its last use. -/
structure MemoEntry (κ ν : Type) where
  key : κ
  value : ν
  lastUsed : Nat
deriving Repr

/-- A bounded memory of answers. -/
structure Memo (κ ν : Type) where
  capacity : Nat
  entries : List (MemoEntry κ ν) := []
  /-- The tick of the next question; it never wraps around. -/
  clock : Nat := 0
deriving Repr

namespace Memo

variable {κ ν : Type}

/-- How many answers are kept. -/
def size (memo : Memo κ ν) : Nat :=
  memo.entries.length

/-- Forgets every answer. -/
def clear (memo : Memo κ ν) : Memo κ ν :=
  { memo with entries := [] }

/-- How many entries stay when some have to go. A product that overflows in 64 bits belongs to a
capacity that no memo gets to exceed. -/
def kept (memo : Memo κ ν) : Nat :=
  memo.capacity * 3 / 4

/-- Drops the least recently used entries where there are more than the capacity. -/
def trim (memo : Memo κ ν) : Memo κ ν :=
  if memo.size ≤ memo.capacity then
    memo
  else
    let ticks := (memo.entries.map (·.lastUsed)).mergeSort
    match ticks[memo.size - memo.kept - 1]? with
    | some threshold =>
      { memo with entries := memo.entries.filter fun entry => threshold < entry.lastUsed }
    | none => memo

/-- Takes a tick for a question about a key that has no entry. -/
def tick (memo : Memo κ ν) : Memo κ ν :=
  { memo with clock := memo.clock + 1 }

/-- The memo in words. -/
def describe (memo : Memo κ ν) : String :=
  s!"MatchStateCache({memo.size}/{memo.capacity} entries)"

variable [DecidableEq κ]

/-- The value under a key. -/
def find? (memo : Memo κ ν) (key : κ) : Option ν :=
  (memo.entries.find? fun entry => entry.key = key).map (·.value)

/-- Takes a tick for a question about a key that has an entry, which refreshes it. -/
def touch (memo : Memo κ ν) (key : κ) : Memo κ ν :=
  { memo with
    entries := memo.entries.map fun entry =>
      if entry.key = key then { entry with lastUsed := memo.clock } else entry
    clock := memo.clock + 1 }

/-- Keeps a value under a key with the tick of its question, unless the key has a value, and gives
the value that is kept. -/
def store (memo : Memo κ ν) (key : κ) (tick : Nat) (value : ν) : ν × Memo κ ν :=
  match memo.find? key with
  | some old => (old, memo.trim)
  | none => (value, trim { memo with entries := ⟨key, value, tick⟩ :: memo.entries })

/-- Answers a question from the memo in a state, or works the answer out and keeps it. The memo is
the part of the state that `view` shows and `update` replaces, so working out may ask it again. -/
def fetch {σ ε : Type} (view : σ → Memo κ ν) (update : σ → Memo κ ν → σ) (key : κ)
    (compute : σ → Except ε ν × σ) (state : σ) : Except ε ν × σ :=
  match (view state).find? key with
  | some value => (.ok value, update state ((view state).touch key))
  | none =>
    match compute (update state (view state).tick) with
    | (.error failure, after) => (.error failure, after)
    | (.ok value, after) =>
      let (value, memo) := (view after).store key (view state).clock value
      (.ok value, update after memo)

/-- A question whose key is there is answered without working anything out. -/
theorem fetch_of_find?_eq_some {σ ε : Type} {view : σ → Memo κ ν} {update : σ → Memo κ ν → σ}
    {key : κ} {compute : σ → Except ε ν × σ} {state : σ} {value : ν}
    (hFind : (view state).find? key = some value) :
    fetch view update key compute state = (.ok value, update state ((view state).touch key)) := by
  simp [fetch, hFind]

/-! ## Runs of questions -/

/-- A step on a memo: a question whose answer is worked out by steps on the same memo and then has
the given outcome; forgetting everything; or nothing at all. -/
inductive Step (κ ν ε : Type) where
  | ask (key : κ) (before : List (Step κ ν ε)) (outcome : Except ε ν)
  | clear
  | rest

instance {ε : Type} : Inhabited (Step κ ν ε) := ⟨.rest⟩

/-- What a step gave and left: for a question its answer, with the reports of the steps inside it if
it had to be worked out. -/
inductive Report (κ ν ε : Type) where
  | asked (answer : Except ε ν) (inside : Option (List (Report κ ν ε))) (after : Memo κ ν)
  | quiet (after : Memo κ ν)

/-- The memo that a step left. -/
def Report.after {ε : Type} : Report κ ν ε → Memo κ ν
  | asked _ _ after => after
  | quiet after => after

mutual

/-- Runs a step. -/
def runStep {ε : Type} : Step κ ν ε → Memo κ ν → Report κ ν ε
  | .rest, memo => .quiet memo
  | .clear, memo => .quiet memo.clear
  | .ask key before outcome, memo =>
    let compute := fun state : Memo κ ν × Option (List (Report κ ν ε)) =>
      let (reports, memo) := runSteps before state.1
      (outcome, memo, some reports)
    match fetch (·.1) (fun state memo => (memo, state.2)) key compute (memo, none) with
    | (answer, after, inside) => .asked answer inside after

/-- Runs steps one after another. -/
def runSteps {ε : Type} : List (Step κ ν ε) → Memo κ ν → List (Report κ ν ε) × Memo κ ν
  | [], memo => ([], memo)
  | step :: steps, memo =>
    let report := runStep step memo
    let (reports, memo) := runSteps steps report.after
    (report :: reports, memo)

end

end Memo

end GrammarSearch
