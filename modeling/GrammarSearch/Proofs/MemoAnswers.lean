import GrammarSearch.Proofs.MemoBounds

/-!
# Answers that stay

A value is stored under a key only while there is none, so it does not change until its entry is
dropped, whatever is asked in between and in whatever nesting: a question that is worked out while
an inner one stored a value under its own key gives that value.  Failures are given back as they are
and leave nothing behind of their own.

## Main results

* `fetch_counting`: an answer is worked out exactly if its key has no entry.
* `Moment.answer_eq_of_keeps`: answers for a key agree unless its entry was removed between them.
* `first_stored_value_stays`: what a fetch does in every case, and what holds over every run.
-/

namespace GrammarSearch.Memo

variable {κ ν ε : Type} [DecidableEq κ]

/-! ## Entries and what is found -/

section

variable {memo : Memo κ ν} {key : κ} {value : ν}

/-- Where no key has two entries, a value is found exactly if an entry has it. -/
theorem find?_eq_some_iff (hKeys : (memo.entries.map (·.key)).Nodup) :
    memo.find? key = some value ↔
      ∃ entry ∈ memo.entries, entry.key = key ∧ entry.value = value := by
  constructor
  · exact exists_entry_of_find?
  · rintro ⟨entry, hEntry, hKey, hValue⟩
    cases hFind : memo.find? key with
    | none => exact absurd hKey (find?_eq_none_iff.1 hFind entry hEntry)
    | some found =>
      obtain ⟨other, hOther, hOtherKey, hFound⟩ := exists_entry_of_find? hFind
      have hSame : other = entry :=
        List.inj_on_of_nodup_map hKeys hOther hEntry (hOtherKey.trans hKey.symm)
      rw [← hFound, hSame, hValue]

/-- Answering from an entry changes its tick and the clock, and nothing else. -/
theorem touch_of_find? (hKeys : (memo.entries.map (·.key)).Nodup)
    (hFind : memo.find? key = some value) :
    ∃ front entry back, memo.entries = front ++ entry :: back ∧ entry.key = key ∧
      entry.value = value ∧
      memo.touch key = { memo with
        entries := front ++ { entry with lastUsed := memo.clock } :: back
        clock := memo.clock + 1 } := by
  obtain ⟨entry, hEntry, hKey, hValue⟩ := exists_entry_of_find? hFind
  obtain ⟨front, back, hSplit⟩ := List.append_of_mem hEntry
  refine ⟨front, entry, back, hSplit, hKey, hValue, ?_⟩
  rw [hSplit, List.map_append, List.map_cons, hKey] at hKeys
  obtain ⟨-, hBack, hFront⟩ := List.nodup_append.1 hKeys
  have hFrontOther : ∀ other ∈ front, other.key ≠ key := fun other hOther =>
    hFront other.key (List.mem_map_of_mem hOther) key (List.mem_cons_self ..)
  have hBackOther : ∀ other ∈ back, other.key ≠ key := fun other hOther hSame =>
    (List.nodup_cons.1 hBack).1 (hSame ▸ List.mem_map_of_mem hOther)
  let refresh := fun other : MemoEntry κ ν =>
    if other.key = key then { other with lastUsed := memo.clock } else other
  have hSkip : ∀ others : List (MemoEntry κ ν), (∀ other ∈ others, other.key ≠ key) →
      others.map refresh = others := fun others hOthers => by
    refine (List.map_congr_left fun other hOther => ?_).trans (List.map_id _)
    exact if_neg (hOthers other hOther)
  have hEntries : memo.entries.map refresh =
      front ++ { entry with lastUsed := memo.clock } :: back := by
    rw [hSplit, List.map_append, List.map_cons, hSkip front hFrontOther, hSkip back hBackOther]
    simp only [refresh, if_pos hKey]
  show { memo with entries := memo.entries.map refresh, clock := memo.clock + 1 } = _
  rw [hEntries]

end

/-! ## Removals -/

namespace Moment

/-- An event removes the entry under a key, which was there or entered with the event itself. -/
def Removes (now : Moment κ ν) (key : κ) (event : Event κ ν ε) : Prop :=
  ((∃ value, now.memo.find? key = some value) ∨
    ∃ entry, now.entering? event = some entry ∧ entry.key = key) ∧
  (now.next event).memo.find? key = none

/-- None of the events removes the entry under a key. -/
def Keeps (key : κ) : Moment κ ν → List (Event κ ν ε) → Prop
  | _, [] => True
  | now, event :: later => ¬ now.Removes key event ∧ (now.next event).Keeps key later

variable {now : Moment κ ν} {event : Event κ ν ε} {key : κ} {value answer : ν}

/-- A value found after an event was found before, or entered with it. -/
theorem find?_of_find?_next (h : now.Ordered)
    (hFind : (now.next event).memo.find? key = some value) :
    now.memo.find? key = some value ∨
      ∃ entry, now.entering? event = some entry ∧ entry.key = key ∧ entry.value = value := by
  obtain ⟨entry, hEntry, hKey, hValue⟩ := exists_entry_of_find? hFind
  rcases mem_next_cases hEntry with ⟨old, hOld, -, rfl⟩ | hEnters | ⟨hOld, -, -⟩
  · exact .inl ((find?_eq_some_iff h.keys_nodup).2 ⟨old, hOld, hKey, hValue⟩)
  · exact .inr ⟨entry, hEnters, hKey, hValue⟩
  · exact .inl ((find?_eq_some_iff h.keys_nodup).2 ⟨entry, hOld, hKey, hValue⟩)

/-- A key whose entry enters has none before. -/
theorem find?_eq_none_of_entering? {entry : MemoEntry κ ν}
    (hEnters : now.entering? event = some entry) : now.memo.find? entry.key = none := by
  obtain ⟨question, questions, value, -, -, hFind, rfl⟩ := entering?_eq_some_iff.1 hEnters
  exact hFind

/-- The value under a key does not change while its entry stays. -/
theorem find?_next (h : now.Ordered) (hFind : now.memo.find? key = some value)
    (hStays : ¬ now.Removes key event) : (now.next event).memo.find? key = some value := by
  cases hNext : (now.next event).memo.find? key with
  | none => exact absurd ⟨.inl ⟨value, hFind⟩, hNext⟩ hStays
  | some other =>
    rcases find?_of_find?_next h hNext with hOther | ⟨entry, hEnters, rfl, -⟩
    · exact hOther.symm.trans hFind
    · rw [find?_eq_none_of_entering? hEnters] at hFind
      cases hFind

theorem find?_run_of_keeps (h : now.Ordered) (hFind : now.memo.find? key = some value)
    {later : List (Event κ ν ε)} (hKeeps : now.Keeps key later) :
    (now.run later).memo.find? key = some value := by
  induction later generalizing now with
  | nil => exact hFind
  | cons event later ih => exact ih (h.next event) (find?_next h hFind hKeeps.1) hKeeps.2

/-! ## Answers -/

/-- An answer is found under its key, or enters there. -/
theorem answer?_eq_ok_cases (hAnswer : now.answer? event = some (key, .ok answer)) :
    now.memo.find? key = some answer ∨
      ∃ entry, now.entering? event = some entry ∧ entry.key = key ∧ entry.value = answer := by
  cases event with
  | ask asked =>
    obtain ⟨found, hFound, hSame⟩ := Option.map_eq_some_iff.1 hAnswer
    obtain ⟨rfl, hValue⟩ := Prod.mk.inj hSame
    obtain rfl := Except.ok.inj hValue
    exact .inl hFound
  | finish outcome =>
    cases hQuestions : now.questions with
    | nil => simp [answer?, hQuestions] at hAnswer
    | cons question questions =>
      cases outcome with
      | error failure => simp [answer?, hQuestions] at hAnswer
      | ok value =>
        simp only [answer?, hQuestions, Option.some.injEq, Prod.mk.injEq, Except.ok.injEq]
          at hAnswer
        obtain ⟨rfl, rfl⟩ := hAnswer
        cases hFind : now.memo.find? question.key with
        | some old => exact .inl (by simp only [store, hFind])
        | none =>
          refine .inr ⟨⟨question.key, value, question.tick⟩, ?_, rfl, by simp only [store, hFind]⟩
          exact entering?_eq_some_iff.2 ⟨question, questions, value, rfl, hQuestions, hFind, rfl⟩
  | clear => cases hAnswer

/-- While a value is stored under a key, every answer for the key is that value. -/
theorem answer_eq_of_find? (hFind : now.memo.find? key = some value)
    (hAnswer : now.answer? event = some (key, .ok answer)) : answer = value := by
  rcases answer?_eq_ok_cases hAnswer with hFound | ⟨entry, hEnters, rfl, -⟩
  · exact Option.some.inj (hFound.symm.trans hFind)
  · rw [find?_eq_none_of_entering? hEnters] at hFind
    cases hFind

/-- An answer is what is stored under its key after it, unless the entry is removed at once. -/
theorem find?_next_of_answer (h : now.Ordered)
    (hAnswer : now.answer? event = some (key, .ok answer)) (hStays : ¬ now.Removes key event) :
    (now.next event).memo.find? key = some answer := by
  rcases answer?_eq_ok_cases hAnswer with hFound | ⟨entry, hEnters, rfl, rfl⟩
  · exact find?_next h hFound hStays
  · cases hNext : (now.next event).memo.find? entry.key with
    | none => exact absurd ⟨.inr ⟨entry, hEnters, rfl⟩, hNext⟩ hStays
    | some other =>
      rcases find?_of_find?_next h hNext with hOther | ⟨new, hNew, -, rfl⟩
      · rw [find?_eq_none_of_entering? hEnters] at hOther
        cases hOther
      · rw [Option.some.inj (hNew.symm.trans hEnters)]

/-- Two answers for a key are the same unless its entry was removed between them. -/
theorem answer_eq_of_keeps (h : now.Ordered) {middle : List (Event κ ν ε)} {last : Event κ ν ε}
    {other : ν} (hAnswer : now.answer? event = some (key, .ok answer))
    (hKeeps : now.Keeps key (event :: middle))
    (hOther : (now.run (event :: middle)).answer? last = some (key, .ok other)) :
    other = answer := by
  have hStored := find?_next_of_answer h hAnswer hKeeps.1
  exact answer_eq_of_find? (find?_run_of_keeps (h.next event) hStored hKeeps.2) hOther

end Moment

open Moment

/-! ## Fetching -/

section

variable {σ : Type} {view : σ → Memo κ ν} {update : σ → Memo κ ν → σ} {key : κ}
variable {compute : σ → Except ε ν × σ} {state : σ}

/-- Counting how often an answer is worked out does not change what fetching does, and counts one if
the key has no entry and none otherwise. -/
theorem fetch_counting (view : σ → Memo κ ν) (update : σ → Memo κ ν → σ) (key : κ)
    (compute : σ → Except ε ν × σ) (state : σ) (count : Nat) :
    fetch (fun counted : σ × Nat => view counted.1)
      (fun counted memo => (update counted.1 memo, counted.2)) key
      (fun counted => ((compute counted.1).1, (compute counted.1).2, counted.2 + 1))
      (state, count) =
    ((fetch view update key compute state).1, (fetch view update key compute state).2,
      if (view state).find? key = none then count + 1 else count) := by
  cases hFind : (view state).find? key with
  | some value => simp [fetch, hFind]
  | none =>
    cases hRun : compute (update state (view state).tick) with
    | mk outcome after => cases outcome <;> simp [fetch, hFind, hRun]

/-- Working an answer out leaves no more entries than the capacity, so there is nothing to trim. -/
theorem trim_of_operates (hView : ∀ state memo, view (update state memo) = memo)
    (hCompute : Operates ε view compute) (key : κ) {now : Moment κ ν} (h : now.Ordered)
    (hState : view state = now.memo) :
    (view (compute (update state (view state).tick)).2).trim =
      view (compute (update state (view state).tick)).2 := by
  have hWorked := hCompute (update state (view state).tick) (now.opening key).questions
  rw [hView, hState] at hWorked
  rw [hState]
  exact trim_of_size_le (Leads.ordered hWorked (h.opening key)).size_le

end

/-- Fetching an answer at any moment of any run, worked out by whatever operates on the memo.  The
answer is worked out exactly if its key has no entry.  If it has one, its value is the answer, and
only its tick and the clock change.  If working it out fails, that failure is the answer, and the
memo is left as it is then.  If it succeeds, a value that is stored under the key by then is the
answer, and otherwise the new value, which enters before the memo is trimmed.  Over every run, a
value does not change while its entry is kept, and two answers for a key are the same unless its
entry is removed between them. -/
theorem first_stored_value_stays {σ : Type} {view : σ → Memo κ ν} {update : σ → Memo κ ν → σ}
    (hView : ∀ state memo, view (update state memo) = memo)
    (hUpdate : ∀ state, update state (view state) = state)
    {compute : σ → Except ε ν × σ} (hCompute : Operates ε view compute) (capacity : Nat)
    (events : List (Event κ ν ε)) {state : σ}
    (hState : view state = ((start capacity).run events).memo) (key : κ) :
    let memo := view state
    let answered := fetch view update key compute state
    let worked := compute (update state memo.tick)
    (∀ count, fetch (fun counted : σ × Nat => view counted.1)
        (fun counted memo => (update counted.1 memo, counted.2)) key
        (fun counted => ((compute counted.1).1, (compute counted.1).2, counted.2 + 1))
        (state, count) =
      (answered.1, answered.2, if memo.find? key = none then count + 1 else count)) ∧
    (∀ value, memo.find? key = some value → ∃ front entry back,
      memo.entries = front ++ entry :: back ∧ entry.key = key ∧ entry.value = value ∧
      answered = (.ok value, update state { memo with
        entries := front ++ { entry with lastUsed := memo.clock } :: back
        clock := memo.clock + 1 })) ∧
    (memo.find? key = none →
      (∀ failure, worked.1 = .error failure → answered = (.error failure, worked.2)) ∧
      ∀ value, worked.1 = .ok value →
        (∀ old, (view worked.2).find? key = some old → answered = (.ok old, worked.2)) ∧
        ((view worked.2).find? key = none →
          answered = (.ok value, update worked.2 (trim { view worked.2 with
            entries := ⟨key, value, memo.clock⟩ :: (view worked.2).entries })))) ∧
    (∀ questions, ∃ last, ∃ event : Event κ ν ε, Leads ε ⟨memo, questions⟩ last ∧
      last.answer? event = some (key, answered.1) ∧
      last.next event = ⟨view answered.2, questions⟩) ∧
    (∀ (first later : List (Event κ ν ε)) (other : κ) (value : ν),
      let now : Moment κ ν := (start capacity).run first
      now.memo.find? other = some value → now.Keeps other later →
        (now.run later).memo.find? other = some value) ∧
    ∀ (first middle : List (Event κ ν ε)) (event last : Event κ ν ε) (other : κ) (one two : ν),
      let now : Moment κ ν := (start capacity).run first
      now.answer? event = some (other, .ok one) → now.Keeps other (event :: middle) →
        (now.run (event :: middle)).answer? last = some (other, .ok two) → two = one := by
  intro memo answered worked
  have hOrdered : ((start capacity).run events : Moment κ ν).Ordered :=
    (ordered_start capacity).run events
  have hKeys : (memo.entries.map (·.key)).Nodup := by
    show ((view state).entries.map (·.key)).Nodup
    rw [hState]
    exact hOrdered.keys_nodup
  refine ⟨fetch_counting view update key compute state, fun value hFind => ?_, fun hFind => ?_,
    exists_events_of_fetch hView hCompute key state,
    fun first later other value hOther hKeeps => ?_,
    fun first middle event last other one two hOne hKeeps hTwo => ?_⟩
  · obtain ⟨front, entry, back, hEntries, hKey, hValue, hTouch⟩ := touch_of_find? hKeys hFind
    refine ⟨front, entry, back, hEntries, hKey, hValue, ?_⟩
    rw [← hTouch]
    exact fetch_of_find?_eq_some hFind
  · refine ⟨fun failure hFailure => fetch_of_error hFind (Prod.ext hFailure rfl),
      fun value hValue => ?_⟩
    have hAnswered : answered = (.ok ((view worked.2).store key memo.clock value).1,
        update worked.2 ((view worked.2).store key memo.clock value).2) :=
      fetch_of_ok hFind (Prod.ext hValue rfl)
    refine ⟨fun old hOld => ?_, fun hNew => ?_⟩
    · -- An inner question stored a value first; what it left fits, so nothing is trimmed here.
      have hStore : (view worked.2).store key memo.clock value = (old, view worked.2) := by
        simp only [store, hOld]
        rw [trim_of_operates hView hCompute key hOrdered hState]
      rw [hAnswered, hStore, hUpdate]
    · rw [hAnswered]
      simp only [store, hNew]
  · exact find?_run_of_keeps ((ordered_start capacity).run first) hOther hKeeps
  · exact answer_eq_of_keeps ((ordered_start capacity).run first) hOne hKeeps hTwo

/-- An inner question about the same key stores its value first, so the outer one gives that value
although it was worked out differently. -/
theorem inner_value_stays :
    let inner : Memo Nat Nat → Except Unit Nat × Memo Nat Nat :=
      fetch id (fun _ memo => memo) 1 fun memo => (.ok 7, memo)
    let outer : Memo Nat Nat → Except Unit Nat × Memo Nat Nat :=
      fun memo => (.ok 5, (inner memo).2)
    Operates Unit id outer ∧
      (fetch id (fun _ memo => memo) 1 outer { capacity := 2 }).1 = .ok 7 := by
  intro inner outer
  have hInner : Operates Unit id inner :=
    Operates.fetch (fun _ _ => rfl) 1 fun _ _ => Leads.refl _
  have hOuter : Operates Unit id outer := fun memo questions => hInner memo questions
  have hState : id ({ capacity := 2 } : Memo Nat Nat) =
      ((start 2).run ([] : List (Event Nat Nat Unit))).memo := rfl
  obtain ⟨-, -, hWorked, -⟩ :=
    first_stored_value_stays (fun _ _ => rfl) (fun _ => rfl) hOuter 2 [] hState 1
  have hAnswered := ((hWorked rfl).2 5 rfl).1 7 rfl
  exact ⟨hOuter, by rw [hAnswered]⟩

end GrammarSearch.Memo
