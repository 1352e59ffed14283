import GrammarSearch.Search.Memo

/-!
# A memo from moment to moment

Working out an answer may ask the same memo again, so questions lie inside each other.  Laid out in
time, a run is a sequence of events: a question is asked; the question asked last among those that
are still open is worked out, with a value or a failure; everything is forgotten.  `Moment` is a
memo together with its open questions, and `Moment.next` is what one event makes of it, by the
operations that `fetch` consists of.  Whatever computations do between their questions, they get no
further than some sequence of events.

## Main results

* `exists_events_of_fetch`: a fetch is a run of events, and the last of them gives its answer.
* `leads_runSteps`: every memo that a run of nested steps shows is one at some moment.
-/

namespace GrammarSearch.Memo

variable {κ ν ε : Type}

/-- A question that is open, with the tick that it took when it was asked. -/
structure OpenQuestion (κ : Type) where
  key : κ
  tick : Nat

/-- A memo at a moment of a run, with the questions that are open, the one asked last in front. -/
structure Moment (κ ν : Type) where
  memo : Memo κ ν
  questions : List (OpenQuestion κ) := []

/-- What can happen next: a question is asked, the question asked last is worked out, or everything
is forgotten. -/
inductive Event (κ ν ε : Type) where
  | ask (key : κ)
  | finish (outcome : Except ε ν)
  | clear

namespace Moment

/-- The moment before anything is asked. -/
def start (capacity : Nat) : Moment κ ν where
  memo := { capacity }

/-- The moment after a question was asked that has to be worked out. -/
def opening (now : Moment κ ν) (key : κ) : Moment κ ν :=
  ⟨now.memo.tick, ⟨key, now.memo.clock⟩ :: now.questions⟩

variable [DecidableEq κ]

/-- What an event makes of a moment.  A question whose key has an entry is answered at once. -/
def next (now : Moment κ ν) : Event κ ν ε → Moment κ ν
  | .ask key =>
    match now.memo.find? key with
    | some _ => { now with memo := now.memo.touch key }
    | none => now.opening key
  | .finish outcome =>
    match now.questions, outcome with
    | [], _ => now
    | _ :: questions, .error _ => { now with questions }
    | question :: questions, .ok value =>
      ⟨(now.memo.store question.key question.tick value).2, questions⟩
  | .clear => { now with memo := now.memo.clear }

/-- The question that an event answers, by its key, and the answer. -/
def answer? (now : Moment κ ν) : Event κ ν ε → Option (κ × Except ε ν)
  | .ask key => (now.memo.find? key).map fun value => (key, .ok value)
  | .finish outcome =>
    match now.questions, outcome with
    | [], _ => none
    | question :: _, .error failure => some (question.key, .error failure)
    | question :: _, .ok value =>
      some (question.key, .ok (now.memo.store question.key question.tick value).1)
  | .clear => none

/-- The moment after some events. -/
def run (now : Moment κ ν) (events : List (Event κ ν ε)) : Moment κ ν :=
  events.foldl next now

@[simp] theorem run_nil (now : Moment κ ν) : now.run ([] : List (Event κ ν ε)) = now := rfl

@[simp] theorem run_cons (now : Moment κ ν) (event : Event κ ν ε) (later : List (Event κ ν ε)) :
    now.run (event :: later) = (now.next event).run later := rfl

theorem run_append (now : Moment κ ν) (first later : List (Event κ ν ε)) :
    now.run (first ++ later) = (now.run first).run later :=
  List.foldl_append

theorem next_ask_of_find?_eq_some {now : Moment κ ν} {key : κ} {value : ν}
    (hFind : now.memo.find? key = some value) :
    now.next (.ask key : Event κ ν ε) = { now with memo := now.memo.touch key } := by
  simp only [next, hFind]

theorem next_ask_of_find?_eq_none {now : Moment κ ν} {key : κ}
    (hFind : now.memo.find? key = none) :
    now.next (.ask key : Event κ ν ε) = now.opening key := by
  simp only [next, hFind]

/-- A property that every event keeps holds at every moment. -/
theorem run_induction {p : Moment κ ν → Prop} {now : Moment κ ν} (hNow : p now)
    (hNext : ∀ now (event : Event κ ν ε), p now → p (now.next event))
    (events : List (Event κ ν ε)) : p (now.run events) := by
  induction events generalizing now with
  | nil => exact hNow
  | cons event later ih => exact ih (hNext now event hNow)

/-! ## Events that lead on -/

/-- Some events lead from one moment to another. -/
def Leads (ε : Type) (now later : Moment κ ν) : Prop :=
  ∃ events : List (Event κ ν ε), now.run events = later

theorem Leads.refl (now : Moment κ ν) : Leads ε now now :=
  ⟨[], rfl⟩

theorem Leads.trans {now middle later : Moment κ ν} (hFirst : Leads ε now middle)
    (hLater : Leads ε middle later) : Leads ε now later := by
  obtain ⟨first, rfl⟩ := hFirst
  obtain ⟨rest, rfl⟩ := hLater
  exact ⟨first ++ rest, run_append now first rest⟩

theorem leads_next (now : Moment κ ν) (event : Event κ ν ε) : Leads ε now (now.next event) :=
  ⟨[event], rfl⟩

/-- Some events lead to a moment with the memo. -/
def Passes (ε : Type) (now : Moment κ ν) (memo : Memo κ ν) : Prop :=
  ∃ later, Leads ε now later ∧ later.memo = memo

/-- Where opening a question leads on, asking it does too. -/
theorem leads_opening {now later : Moment κ ν} {key : κ} (hFind : now.memo.find? key = none)
    (hLater : Leads ε (now.opening key) later) : Leads ε now later := by
  have hAsk := leads_next now (.ask key : Event κ ν ε)
  rw [next_ask_of_find?_eq_none hFind] at hAsk
  exact hAsk.trans hLater

end Moment

open Moment

variable [DecidableEq κ]

/-! ## Fetching in time -/

section

variable {σ α : Type} {view : σ → Memo κ ν} {update : σ → Memo κ ν → σ}

/-- A computation that gets at the memo in a state by events only, and leaves no question open that
it asked. -/
def Operates (ε : Type) (view : σ → Memo κ ν) (compute : σ → α × σ) : Prop :=
  ∀ state questions, Leads ε ⟨view state, questions⟩ ⟨view (compute state).2, questions⟩

variable {compute : σ → Except ε ν × σ} {key : κ} {state : σ}

theorem fetch_of_error (hFind : (view state).find? key = none) {failure : ε} {after : σ}
    (hRun : compute (update state (view state).tick) = (.error failure, after)) :
    fetch view update key compute state = (.error failure, after) := by
  simp only [fetch, hFind, hRun]

theorem fetch_of_ok (hFind : (view state).find? key = none) {value : ν} {after : σ}
    (hRun : compute (update state (view state).tick) = (.ok value, after)) :
    fetch view update key compute state =
      (.ok ((view after).store key (view state).clock value).1,
        update after ((view after).store key (view state).clock value).2) := by
  simp only [fetch, hFind, hRun]

/-- A fetch is a run of events, and the last of them gives its answer. -/
theorem exists_events_of_fetch (hView : ∀ state memo, view (update state memo) = memo)
    (hCompute : Operates ε view compute) (key : κ) (state : σ) (questions : List (OpenQuestion κ)) :
    ∃ last, ∃ event : Event κ ν ε, Leads ε ⟨view state, questions⟩ last ∧
      last.answer? event = some (key, (fetch view update key compute state).1) ∧
      last.next event = ⟨view (fetch view update key compute state).2, questions⟩ := by
  let now : Moment κ ν := ⟨view state, questions⟩
  cases hFind : (view state).find? key with
  | some value =>
    refine ⟨now, .ask key, .refl now, ?_, ?_⟩
    · rw [fetch_of_find?_eq_some hFind]
      exact Option.map_eq_some_iff.2 ⟨value, hFind, rfl⟩
    · rw [fetch_of_find?_eq_some hFind, hView, next_ask_of_find?_eq_some hFind]
  | none =>
    have hWorked := hCompute (update state (view state).tick) (now.opening key).questions
    rw [hView] at hWorked
    cases hRun : compute (update state (view state).tick) with
    | mk outcome after =>
      rw [hRun] at hWorked
      refine ⟨_, .finish outcome, leads_opening hFind hWorked, ?_⟩
      cases outcome with
      | error failure =>
        rw [fetch_of_error hFind hRun]
        exact ⟨rfl, rfl⟩
      | ok value =>
        rw [fetch_of_ok hFind hRun, hView]
        exact ⟨rfl, rfl⟩

/-- Fetching an answer operates on the memo if working it out does. -/
theorem Operates.fetch (hView : ∀ state memo, view (update state memo) = memo) (key : κ)
    (hCompute : Operates ε view compute) :
    Operates ε view (Memo.fetch view update key compute) := by
  intro state questions
  obtain ⟨last, event, hLeads, -, hNext⟩ :=
    exists_events_of_fetch hView hCompute key state questions
  have hEvent := leads_next last event
  rw [hNext] at hEvent
  exact hLeads.trans hEvent

end

/-! ## Nested steps in time -/

/-- The memos that a report shows: the one that was left, and those of the reports inside. -/
inductive Report.Shows : Report κ ν ε → Memo κ ν → Prop
  | after (report : Report κ ν ε) : Shows report report.after
  | inside {answer : Except ε ν} {reports : List (Report κ ν ε)} {after memo : Memo κ ν}
      {report : Report κ ν ε} (hMem : report ∈ reports) (hShows : Shows report memo) :
      Shows (.asked answer (some reports) after) memo

theorem runStep_ask_of_find?_eq_some {memo : Memo κ ν} {key : κ} {value : ν}
    (hFind : memo.find? key = some value) (before : List (Step κ ν ε)) (outcome : Except ε ν) :
    runStep (.ask key before outcome) memo = .asked (.ok value) none (memo.touch key) := by
  simp [runStep, fetch, hFind]

theorem runStep_ask_error {memo : Memo κ ν} {key : κ} (hFind : memo.find? key = none)
    (before : List (Step κ ν ε)) (failure : ε) :
    runStep (.ask key before (.error failure)) memo =
      .asked (.error failure) (some (runSteps before memo.tick).1)
        (runSteps before memo.tick).2 := by
  simp [runStep, fetch, hFind]

theorem runStep_ask_ok {memo : Memo κ ν} {key : κ} (hFind : memo.find? key = none)
    (before : List (Step κ ν ε)) (value : ν) :
    runStep (.ask key before (.ok value)) memo =
      .asked (.ok ((runSteps before memo.tick).2.store key memo.clock value).1)
        (some (runSteps before memo.tick).1)
        ((runSteps before memo.tick).2.store key memo.clock value).2 := by
  simp [runStep, fetch, hFind]

mutual

/-- A step is a run of events that leaves the open questions as they are, and it shows only memos on
the way. -/
theorem leads_runStep (step : Step κ ν ε) (now : Moment κ ν) :
    Leads ε now ⟨(runStep step now.memo).after, now.questions⟩ ∧
      ∀ memo, (runStep step now.memo).Shows memo → now.Passes ε memo := by
  cases step with
  | rest =>
    refine ⟨.refl now, fun memo hShows => ?_⟩
    cases hShows with
    | after => exact ⟨now, .refl now, rfl⟩
  | clear =>
    refine ⟨leads_next now .clear, fun memo hShows => ?_⟩
    cases hShows with
    | after => exact ⟨_, leads_next now .clear, rfl⟩
  | ask key before outcome =>
    cases hFind : now.memo.find? key with
    | some value =>
      have hNext := leads_next now (.ask key : Event κ ν ε)
      rw [next_ask_of_find?_eq_some hFind] at hNext
      rw [runStep_ask_of_find?_eq_some hFind]
      refine ⟨hNext, fun memo hShows => ?_⟩
      cases hShows with
      | after => exact ⟨_, hNext, rfl⟩
    | none =>
      obtain ⟨hInside, hShown⟩ := leads_runSteps before (now.opening key)
      have hFinish := leads_opening hFind (hInside.trans (leads_next _ (.finish outcome)))
      have hReports : ∀ report ∈ (runSteps before now.memo.tick).1, ∀ memo, report.Shows memo →
          now.Passes ε memo := by
        intro report hMem memo hShows
        obtain ⟨later, hLater, hMemo⟩ := hShown report hMem memo hShows
        exact ⟨later, leads_opening hFind hLater, hMemo⟩
      cases outcome with
      | error failure =>
        rw [runStep_ask_error hFind]
        refine ⟨hFinish, fun memo hShows => ?_⟩
        cases hShows with
        | after => exact ⟨_, hFinish, rfl⟩
        | inside hMem hShows => exact hReports _ hMem memo hShows
      | ok value =>
        rw [runStep_ask_ok hFind]
        refine ⟨hFinish, fun memo hShows => ?_⟩
        cases hShows with
        | after => exact ⟨_, hFinish, rfl⟩
        | inside hMem hShows => exact hReports _ hMem memo hShows

/-- So is a list of steps. -/
theorem leads_runSteps (steps : List (Step κ ν ε)) (now : Moment κ ν) :
    Leads ε now ⟨(runSteps steps now.memo).2, now.questions⟩ ∧
      ∀ report ∈ (runSteps steps now.memo).1, ∀ memo, report.Shows memo → now.Passes ε memo := by
  cases steps with
  | nil => exact ⟨.refl now, fun report hMem => by simp [runSteps] at hMem⟩
  | cons step later =>
    obtain ⟨hStep, hStepShown⟩ := leads_runStep step now
    obtain ⟨hLater, hLaterShown⟩ :=
      leads_runSteps later ⟨(runStep step now.memo).after, now.questions⟩
    refine ⟨hStep.trans hLater, fun report hMem memo hShows => ?_⟩
    rcases List.mem_cons.1 hMem with rfl | hMem
    · exact hStepShown memo hShows
    · obtain ⟨moment, hMoment, hMemo⟩ := hLaterShown report hMem memo hShows
      exact ⟨moment, hStep.trans hMoment, hMemo⟩

end

end GrammarSearch.Memo
