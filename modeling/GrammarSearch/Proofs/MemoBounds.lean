import GrammarSearch.Proofs.MemoContents
import GrammarSearch.Proofs.MemoMoments
import Mathlib.Data.List.Nodup

/-!
# A bounded memo that keeps what was used last

Trimming finds the threshold by sorting the ticks of the entries, so how many entries stay depends
on no two of them having the same tick.  That holds at every moment: the clock gives every question
its own tick, and a tick is held by an open question, or by one entry, or by nothing.  The invariant
`Moment.Ordered` therefore speaks about the ticks of the open questions and of the entries together.
An outer question keeps its early tick while inner ones are worked out and enter with later ticks;
when it enters in turn, its tick is still its own.

## Main results

* `trim_of_capacity_lt`: what trimming leaves when there are more entries than the capacity.
* `Moment.Ordered.next`: no event breaks the invariant.
* `Moment.lastUse?_of_mem_run`: the tick of an entry is that of the last use of its key.
* `keeps_last_used_within_capacity`: what holds at every moment of every run.
-/

namespace GrammarSearch.Memo

variable {κ ν ε : Type}

/-! ## Trimming -/

/-- In a strictly increasing list, as many elements are above the one at an index as come after it.
-/
theorem countP_getElem_lt {ticks : List Nat} (hTicks : ticks.Pairwise (· < ·)) {i : Nat}
    (hi : i < ticks.length) :
    ticks.countP (fun tick => ticks[i] < tick) = ticks.length - (i + 1) := by
  induction ticks generalizing i with
  | nil => simp at hi
  | cons first later ih =>
    obtain ⟨hFirst, hLater⟩ := List.pairwise_cons.1 hTicks
    cases i with
    | zero =>
      have hAll : later.countP (fun tick => first < tick) = later.length :=
        List.countP_eq_length.2 fun tick hTick => by simpa using hFirst tick hTick
      simp [hAll]
    | succ i =>
      have hi : i < later.length := by simpa using hi
      have hBelow : ¬ later[i] < first := by
        have := hFirst later[i] (List.getElem_mem hi)
        omega
      simp [hBelow, ih hLater hi]

/-- Trimming a memo that has no more entries than its capacity changes nothing. -/
theorem trim_of_size_le {memo : Memo κ ν} (hSize : memo.size ≤ memo.capacity) :
    memo.trim = memo := by
  simp [trim, hSize]

theorem kept_lt_size {memo : Memo κ ν} (hSize : memo.capacity < memo.size) :
    memo.kept < memo.size := by
  unfold kept
  omega

/-- Trimming a memo with too many entries keeps those above a threshold, which is the tick with
`kept` ticks above it. -/
theorem exists_threshold {memo : Memo κ ν} (hTicks : (memo.entries.map (·.lastUsed)).Nodup)
    (hSize : memo.capacity < memo.size) :
    ∃ threshold, memo.trim.entries = memo.entries.filter (fun entry => threshold < entry.lastUsed) ∧
      memo.entries.countP (fun entry => threshold < entry.lastUsed) = memo.kept := by
  let ticks := (memo.entries.map (·.lastUsed)).mergeSort
  have hPerm : ticks.Perm (memo.entries.map (·.lastUsed)) := List.mergeSort_perm _ _
  have hLength : ticks.length = memo.size := by
    rw [hPerm.length_eq, List.length_map, size]
  have hSorted : ticks.Pairwise (· < ·) := by
    have hLe : ticks.Pairwise (· ≤ ·) := by
      simpa using @List.pairwise_mergeSort Nat (fun x y => x ≤ y)
        (by simpa using fun x y z => Nat.le_trans) (by simpa using Nat.le_total)
        (memo.entries.map (·.lastUsed))
    have hNe : ticks.Pairwise (· ≠ ·) := hPerm.nodup_iff.2 hTicks
    exact (hLe.and hNe).imp fun h => Nat.lt_of_le_of_ne h.1 h.2
  have hKept := kept_lt_size hSize
  have hIndex : memo.size - memo.kept - 1 < ticks.length := by omega
  refine ⟨ticks[memo.size - memo.kept - 1], ?_, ?_⟩
  · have hThreshold : ticks[memo.size - memo.kept - 1]? = some ticks[memo.size - memo.kept - 1] :=
      List.getElem?_eq_getElem hIndex
    unfold trim
    rw [if_neg (Nat.not_le.2 hSize)]
    simp only [ticks] at hThreshold
    simp only [hThreshold, ticks]
  · -- What is above the threshold is counted in the sorted list, where it is what comes after it.
    calc memo.entries.countP (fun entry => ticks[memo.size - memo.kept - 1] < entry.lastUsed)
        = (memo.entries.map (·.lastUsed)).countP
            (fun tick => ticks[memo.size - memo.kept - 1] < tick) := by
          rw [List.countP_map]
          rfl
      _ = ticks.countP (fun tick => ticks[memo.size - memo.kept - 1] < tick) :=
          (hPerm.countP_eq _).symm
      _ = ticks.length - (memo.size - memo.kept - 1 + 1) := countP_getElem_lt hSorted hIndex
      _ = memo.kept := by omega

/-- Trimming a memo with too many entries leaves `kept` of them, those that were used last. -/
theorem trim_of_capacity_lt {memo : Memo κ ν} (hTicks : (memo.entries.map (·.lastUsed)).Nodup)
    (hSize : memo.capacity < memo.size) :
    memo.trim.size = memo.kept ∧ List.Sublist memo.trim.entries memo.entries ∧
      ∀ gone ∈ memo.entries, gone ∉ memo.trim.entries → ∀ stays ∈ memo.trim.entries,
        gone.lastUsed < stays.lastUsed := by
  obtain ⟨threshold, hEntries, hCount⟩ := exists_threshold hTicks hSize
  refine ⟨?_, ?_, ?_⟩
  · rw [size, hEntries, ← List.countP_eq_length_filter, hCount]
  · rw [hEntries]
    exact List.filter_sublist
  · intro gone hGone hDropped stays hStays
    rw [hEntries, List.mem_filter] at hDropped hStays
    have hBelow : ¬ threshold < gone.lastUsed := fun h => hDropped ⟨hGone, by simpa using h⟩
    have hAbove : threshold < stays.lastUsed := by simpa using hStays.2
    omega

/-- Trimming changes the entries only. -/
theorem trim_eq (memo : Memo κ ν) : memo.trim = { memo with entries := memo.trim.entries } := by
  unfold trim
  split
  · rfl
  · dsimp only
    split <;> rfl

@[simp] theorem capacity_trim (memo : Memo κ ν) : memo.trim.capacity = memo.capacity := by
  rw [trim_eq]

@[simp] theorem clock_trim (memo : Memo κ ν) : memo.trim.clock = memo.clock := by
  rw [trim_eq]

@[simp] theorem clock_store [DecidableEq κ] (memo : Memo κ ν) (key : κ) (tick : Nat) (value : ν) :
    (memo.store key tick value).2.clock = memo.clock := by
  unfold store
  split
  · exact clock_trim memo
  · exact clock_trim _

/-- Trimming brings the entries down to the capacity. -/
theorem size_trim_le {memo : Memo κ ν} (hTicks : (memo.entries.map (·.lastUsed)).Nodup) :
    memo.trim.size ≤ memo.capacity := by
  by_cases hSize : memo.size ≤ memo.capacity
  · rw [trim_of_size_le hSize]
    exact hSize
  · have hKept : memo.trim.size = memo.kept := (trim_of_capacity_lt hTicks (by omega)).1
    rw [hKept, kept]
    omega

/-! ## Finding and touching -/

section

variable [DecidableEq κ] {memo : Memo κ ν} {key : κ}

theorem find?_eq_none_iff :
    memo.find? key = none ↔ ∀ entry ∈ memo.entries, entry.key ≠ key := by
  simp [find?]

/-- The tick that an entry has after a question about a key was answered. -/
def refreshed (memo : Memo κ ν) (key : κ) (entry : MemoEntry κ ν) : Nat :=
  if entry.key = key then memo.clock else entry.lastUsed

theorem lastUsed_touch (memo : Memo κ ν) (key : κ) :
    (memo.touch key).entries.map (·.lastUsed) = memo.entries.map (memo.refreshed key) := by
  rw [touch, List.map_map]
  refine List.map_congr_left fun entry _ => ?_
  by_cases hKey : entry.key = key <;> simp [refreshed, hKey]

/-- Whatever does not look at ticks is the same for the entries after a touch. -/
theorem map_touch {α : Type} {f : MemoEntry κ ν → α}
    (hTick : ∀ entry tick, f { entry with lastUsed := tick } = f entry) (memo : Memo κ ν)
    (key : κ) :
    (memo.touch key).entries.map f = memo.entries.map f := by
  rw [touch, List.map_map]
  refine List.map_congr_left fun entry _ => ?_
  dsimp only [Function.comp_apply]
  split
  · exact hTick entry memo.clock
  · rfl

/-- One entry at most is refreshed, with a tick above all others. -/
theorem nodup_refreshed (hKeys : (memo.entries.map (·.key)).Nodup)
    (hTicks : (memo.entries.map (·.lastUsed)).Nodup)
    (hPast : ∀ entry ∈ memo.entries, entry.lastUsed < memo.clock) :
    (memo.entries.map (memo.refreshed key)).Nodup := by
  have hApart := (List.pairwise_map.1 hKeys).and (List.pairwise_map.1 hTicks)
  refine List.pairwise_map.2 (hApart.imp_of_mem fun {first second} hFirst hSecond hNe => ?_)
  have hFirst := hPast first hFirst
  have hSecond := hPast second hSecond
  grind [refreshed]

end

/-! ## Ticks that are given out once -/

namespace Moment

/-- The ticks that are held: those of the open questions, and those of the entries. -/
def ticks (now : Moment κ ν) : List Nat :=
  now.questions.map (·.tick) ++ now.memo.entries.map (·.lastUsed)

/-- No tick is held twice, every tick that is held was given out before, no key has two entries, and
there are no more entries than the capacity. -/
structure Ordered (now : Moment κ ν) : Prop where
  ticks_nodup : now.ticks.Nodup
  tick_lt : ∀ tick ∈ now.ticks, tick < now.memo.clock
  keys_nodup : (now.memo.entries.map (·.key)).Nodup
  size_le : now.memo.size ≤ now.memo.capacity

theorem ordered_start (capacity : Nat) : (start capacity : Moment κ ν).Ordered where
  ticks_nodup := by simp [start, ticks]
  tick_lt := by simp [start, ticks]
  keys_nodup := by simp [start]
  size_le := by simp [start, size]

variable {now : Moment κ ν}

theorem Ordered.lastUsed_nodup (h : now.Ordered) : (now.memo.entries.map (·.lastUsed)).Nodup :=
  (List.nodup_append.1 h.ticks_nodup).2.1

theorem Ordered.lastUsed_lt (h : now.Ordered) {entry : MemoEntry κ ν}
    (hEntry : entry ∈ now.memo.entries) : entry.lastUsed < now.memo.clock :=
  h.tick_lt _ (List.mem_append_right _ (List.mem_map_of_mem hEntry))

/-- Letting go of open questions and of entries keeps the invariant. -/
theorem Ordered.of_sublist (h : now.Ordered) {later : Moment κ ν}
    (hQuestions : List.Sublist later.questions now.questions)
    (hEntries : List.Sublist later.memo.entries now.memo.entries)
    (hClock : later.memo.clock = now.memo.clock)
    (hCapacity : later.memo.capacity = now.memo.capacity) : later.Ordered where
  ticks_nodup := h.ticks_nodup.sublist ((hQuestions.map _).append (hEntries.map _))
  tick_lt := by
    intro tick hTick
    rw [hClock]
    exact h.tick_lt tick (((hQuestions.map _).append (hEntries.map _)).subset hTick)
  keys_nodup := h.keys_nodup.sublist (hEntries.map _)
  size_le := by
    rw [hCapacity]
    exact Nat.le_trans hEntries.length_le h.size_le

/-- A question that is opened takes a tick that nothing holds. -/
theorem Ordered.opening (h : now.Ordered) (key : κ) : (now.opening key).Ordered where
  ticks_nodup := by
    show (now.memo.clock :: now.ticks).Nodup
    have hFresh : now.memo.clock ∉ now.ticks := fun hHeld => Nat.lt_irrefl _ (h.tick_lt _ hHeld)
    exact List.nodup_cons.2 ⟨hFresh, h.ticks_nodup⟩
  tick_lt := by
    show ∀ tick ∈ now.memo.clock :: now.ticks, tick < now.memo.clock + 1
    intro tick hTick
    rcases List.mem_cons.1 hTick with rfl | hTick
    · omega
    · have := h.tick_lt tick hTick
      omega
  keys_nodup := h.keys_nodup
  size_le := h.size_le

/-- When the question asked last hands its tick to an entry, the same ticks are held as before. -/
theorem perm_ticks_of_entry {question : OpenQuestion κ} {questions : List (OpenQuestion κ)}
    (hQuestions : now.questions = question :: questions) {entry : MemoEntry κ ν}
    (hTick : entry.lastUsed = question.tick) :
    (questions.map (·.tick) ++ (entry :: now.memo.entries).map (·.lastUsed)).Perm now.ticks := by
  rw [ticks, hQuestions, List.map_cons, List.map_cons, hTick]
  exact List.perm_middle

variable [DecidableEq κ]

/-- A question that is answered from the memo gives its entry a tick that nothing holds. -/
theorem Ordered.touch (h : now.Ordered) (key : κ) :
    Ordered { now with memo := now.memo.touch key } := by
  obtain ⟨hQuestions, hEntries, hApart⟩ := List.nodup_append.1 h.ticks_nodup
  refine ⟨?_, ?_, ?_, ?_⟩
  · show (now.questions.map (·.tick) ++ (now.memo.touch key).entries.map (·.lastUsed)).Nodup
    rw [lastUsed_touch]
    have hFresh : (now.memo.entries.map (now.memo.refreshed key)).Nodup :=
      nodup_refreshed h.keys_nodup hEntries fun _ => h.lastUsed_lt
    refine List.nodup_append.2 ⟨hQuestions, hFresh, fun tick hTick other hOther => ?_⟩
    obtain ⟨entry, hEntry, rfl⟩ := List.mem_map.1 hOther
    have hTickLt := h.tick_lt tick (List.mem_append_left _ hTick)
    have hNe := hApart tick hTick _ (List.mem_map_of_mem hEntry)
    unfold refreshed
    split
    · omega
    · exact hNe
  · show ∀ tick ∈ now.questions.map (·.tick) ++ (now.memo.touch key).entries.map (·.lastUsed),
      tick < now.memo.clock + 1
    rw [lastUsed_touch]
    intro tick hTick
    rcases List.mem_append.1 hTick with hTick | hTick
    · have := h.tick_lt tick (List.mem_append_left _ hTick)
      omega
    · obtain ⟨entry, hEntry, rfl⟩ := List.mem_map.1 hTick
      have := h.lastUsed_lt hEntry
      unfold refreshed
      split <;> omega
  · show ((now.memo.touch key).entries.map (·.key)).Nodup
    rw [map_touch fun _ _ => rfl]
    exact h.keys_nodup
  · show (now.memo.touch key).entries.length ≤ now.memo.capacity
    rw [Memo.touch, List.length_map]
    exact h.size_le

/-- A question that is worked out and has no entry yet hands its tick to its entry. -/
theorem Ordered.enter (h : now.Ordered) {question : OpenQuestion κ}
    {questions : List (OpenQuestion κ)} (hQuestions : now.questions = question :: questions)
    (hFind : now.memo.find? question.key = none) (value : ν) :
    Ordered ⟨trim { now.memo with
      entries := ⟨question.key, value, question.tick⟩ :: now.memo.entries }, questions⟩ := by
  let full : Memo κ ν := { now.memo with
    entries := ⟨question.key, value, question.tick⟩ :: now.memo.entries }
  -- The tick goes from the question to its entry, so the ticks that are held stay the same ones.
  have hPerm : (questions.map (·.tick) ++ full.entries.map (·.lastUsed)).Perm now.ticks :=
    perm_ticks_of_entry hQuestions rfl
  have hKeys : (full.entries.map (·.key)).Nodup :=
    List.nodup_cons.2 ⟨by simpa [find?_eq_none_iff] using hFind, h.keys_nodup⟩
  have hFullNodup : (questions.map (·.tick) ++ full.entries.map (·.lastUsed)).Nodup :=
    hPerm.nodup_iff.2 h.ticks_nodup
  have hSublist : List.Sublist (questions.map (·.tick) ++ full.trim.entries.map (·.lastUsed))
      (questions.map (·.tick) ++ full.entries.map (·.lastUsed)) :=
    (List.Sublist.refl _).append ((trim_sublist full).map _)
  refine ⟨hFullNodup.sublist hSublist, ?_, hKeys.sublist ((trim_sublist full).map _), ?_⟩
  · intro tick hTick
    have hTick := h.tick_lt tick (hPerm.subset (hSublist.subset hTick))
    rw [clock_trim]
    exact hTick
  · rw [capacity_trim]
    exact size_trim_le (List.nodup_append.1 hFullNodup).2.1

/-- No event breaks the invariant. -/
theorem Ordered.next (h : now.Ordered) (event : Event κ ν ε) : (now.next event).Ordered := by
  cases event with
  | ask key =>
    cases hFind : now.memo.find? key with
    | some value =>
      rw [next_ask_of_find?_eq_some hFind]
      exact h.touch key
    | none =>
      rw [next_ask_of_find?_eq_none hFind]
      exact h.opening key
  | finish outcome =>
    cases hQuestions : now.questions with
    | nil => simpa only [Moment.next, hQuestions] using h
    | cons question questions =>
      have hLater : List.Sublist questions now.questions := by
        rw [hQuestions]
        exact List.sublist_cons_self _ _
      cases outcome with
      | error failure =>
        simp only [Moment.next, hQuestions]
        exact h.of_sublist hLater (List.Sublist.refl _) rfl rfl
      | ok value =>
        simp only [Moment.next, hQuestions, store]
        split
        · exact h.of_sublist hLater (trim_sublist _) (clock_trim _) (capacity_trim _)
        · next hFind => exact h.enter hQuestions hFind value
  | clear =>
    exact h.of_sublist (List.Sublist.refl _) (List.nil_sublist _) rfl rfl

theorem capacity_next (now : Moment κ ν) (event : Event κ ν ε) :
    (now.next event).memo.capacity = now.memo.capacity := by
  unfold Moment.next
  split
  · split <;> rfl
  · split
    · rfl
    · rfl
    · unfold store
      split <;> exact capacity_trim _
  · rfl

theorem Ordered.run (h : now.Ordered) (events : List (Event κ ν ε)) : (now.run events).Ordered :=
  run_induction h (fun _ event hNow => hNow.next event) events

theorem Leads.ordered {later : Moment κ ν} (hLeads : Leads ε now later) (h : now.Ordered) :
    later.Ordered := by
  obtain ⟨events, rfl⟩ := hLeads
  exact h.run events

theorem capacity_run (now : Moment κ ν) (events : List (Event κ ν ε)) :
    (now.run events).memo.capacity = now.memo.capacity :=
  run_induction (p := fun later : Moment κ ν => later.memo.capacity = now.memo.capacity) rfl
    (fun later event h => (capacity_next later event).trans h) events

/-! ## What enters, and what is used -/

/-- The entry that an event adds, before others have to go: that of the question worked out, unless
its key has an entry by then. -/
def entering? (now : Moment κ ν) : Event κ ν ε → Option (MemoEntry κ ν)
  | .finish (.ok value) =>
    match now.questions with
    | [] => none
    | question :: _ =>
      match now.memo.find? question.key with
      | some _ => none
      | none => some ⟨question.key, value, question.tick⟩
  | _ => none

/-- The tick with which an event uses the entry under a key.  It is taken when the question is
asked, both where the answer is found and where it enters later. -/
def useOf? (now : Moment κ ν) (key : κ) : Event κ ν ε → Option Nat
  | .ask asked => if asked = key ∧ (now.memo.find? key).isSome then some now.memo.clock else none
  | .finish outcome =>
    match now.entering? (.finish outcome) with
    | some entry => if entry.key = key then some entry.lastUsed else none
    | none => none
  | .clear => none

/-- The tick of the last use of the entry under a key. -/
def lastUse? (key : κ) : Moment κ ν → List (Event κ ν ε) → Option Nat
  | _, [] => none
  | now, event :: later => ((now.next event).lastUse? key later).or (now.useOf? key event)

/-- An entry enters when the question asked last is worked out while its key has no entry. -/
theorem entering?_eq_some_iff {event : Event κ ν ε} {entry : MemoEntry κ ν} :
    now.entering? event = some entry ↔ ∃ question questions value,
      event = .finish (.ok value) ∧ now.questions = question :: questions ∧
        now.memo.find? question.key = none ∧ entry = ⟨question.key, value, question.tick⟩ := by
  constructor
  · intro hEnters
    unfold entering? at hEnters
    split at hEnters
    · next value =>
      split at hEnters
      · cases hEnters
      · next question questions hQuestions =>
        split at hEnters
        · cases hEnters
        · next hFind =>
          exact ⟨question, questions, value, rfl, hQuestions, hFind,
            (Option.some.inj hEnters).symm⟩
    · cases hEnters
  · rintro ⟨question, questions, value, rfl, hQuestions, hFind, rfl⟩
    simp only [entering?, hQuestions, hFind]

/-- An event that adds an entry trims the memo that has it. -/
theorem memo_next_of_entering? {event : Event κ ν ε} {entry : MemoEntry κ ν}
    (hEnters : now.entering? event = some entry) :
    (now.next event).memo = trim { now.memo with entries := entry :: now.memo.entries } := by
  obtain ⟨question, questions, value, rfl, hQuestions, hFind, rfl⟩ :=
    entering?_eq_some_iff.1 hEnters
  simp only [Moment.next, store, hQuestions, hFind]

/-- An entry that enters has a tick of its own among all the entries. -/
theorem Ordered.lastUsed_nodup_cons (h : now.Ordered) {event : Event κ ν ε} {entry : MemoEntry κ ν}
    (hEnters : now.entering? event = some entry) :
    ((entry :: now.memo.entries).map (·.lastUsed)).Nodup := by
  obtain ⟨question, questions, value, -, hQuestions, -, rfl⟩ := entering?_eq_some_iff.1 hEnters
  have hPerm : (_ ++ (⟨question.key, value, question.tick⟩ :: now.memo.entries).map _).Perm _ :=
    perm_ticks_of_entry hQuestions rfl
  exact (List.nodup_append.1 (hPerm.nodup_iff.2 h.ticks_nodup)).2.1

/-- A question that is worked out without adding an entry at most trims the memo. -/
theorem memo_next_finish {outcome : Except ε ν}
    (hEnters : now.entering? (.finish outcome) = none) :
    (now.next (.finish outcome)).memo = now.memo ∨
      (now.next (.finish outcome)).memo = now.memo.trim := by
  cases hQuestions : now.questions with
  | nil => simp only [Moment.next, hQuestions, true_or]
  | cons question questions =>
    cases outcome with
    | error failure => simp only [Moment.next, hQuestions, true_or]
    | ok value =>
      cases hFind : now.memo.find? question.key with
      | some old => simp only [Moment.next, hQuestions, store, hFind, or_true]
      | none =>
        have hSome : now.entering? (.finish (.ok value) : Event κ ν ε) =
            some ⟨question.key, value, question.tick⟩ :=
          entering?_eq_some_iff.2 ⟨question, questions, value, rfl, hQuestions, hFind, rfl⟩
        rw [hEnters] at hSome
        cases hSome

/-- An event that adds no entry and does not forget everything leaves every value under its key. -/
theorem Ordered.entries_next (h : now.Ordered) {event : Event κ ν ε}
    (hEnters : now.entering? event = none) (hClear : event ≠ .clear) :
    (now.next event).memo.entries.map (fun entry => (entry.key, entry.value)) =
      now.memo.entries.map (fun entry => (entry.key, entry.value)) := by
  cases event with
  | ask key =>
    cases hFind : now.memo.find? key with
    | some value =>
      rw [next_ask_of_find?_eq_some hFind]
      exact map_touch (fun _ _ => rfl) now.memo key
    | none =>
      rw [next_ask_of_find?_eq_none hFind]
      rfl
  | finish outcome =>
    have hSame : (now.next (.finish outcome)).memo = now.memo := by
      rcases memo_next_finish hEnters with hSame | hTrim
      · exact hSame
      · rw [hTrim, trim_of_size_le h.size_le]
    rw [hSame]
  | clear => exact absurd rfl hClear

/-- Where an entry after an event comes from: it was there and the event refreshed it, it entered,
or it was there and the event was not about its key. -/
theorem mem_next_cases {event : Event κ ν ε} {entry : MemoEntry κ ν}
    (hEntry : entry ∈ (now.next event).memo.entries) :
    (∃ old ∈ now.memo.entries, event = .ask old.key ∧
      entry = { old with lastUsed := now.memo.clock }) ∨
    now.entering? event = some entry ∨
    (entry ∈ now.memo.entries ∧ event ≠ .ask entry.key ∧
      ∀ new, now.entering? event = some new → new.key ≠ entry.key) := by
  cases event with
  | ask key =>
    cases hFind : now.memo.find? key with
    | some value =>
      rw [next_ask_of_find?_eq_some hFind] at hEntry
      obtain ⟨old, hOld, rfl⟩ := List.mem_map.1 hEntry
      by_cases hKey : old.key = key
      · exact .inl ⟨old, hOld, by rw [hKey], if_pos hKey⟩
      · rw [if_neg hKey]
        exact .inr (.inr ⟨hOld, by simpa using Ne.symm hKey, by simp [entering?]⟩)
    | none =>
      rw [next_ask_of_find?_eq_none hFind] at hEntry
      have hOther : entry.key ≠ key := find?_eq_none_iff.1 hFind entry hEntry
      exact .inr (.inr ⟨hEntry, by simpa using hOther.symm, by simp [entering?]⟩)
  | finish outcome =>
    cases hEnters : now.entering? (.finish outcome) with
    | some new =>
      rw [memo_next_of_entering? hEnters] at hEntry
      rcases List.mem_cons.1 (mem_of_mem_trim hEntry) with rfl | hOld
      · exact .inr (.inl rfl)
      · obtain ⟨question, questions, value, -, -, hFind, rfl⟩ := entering?_eq_some_iff.1 hEnters
        have hOther : entry.key ≠ question.key := find?_eq_none_iff.1 hFind entry hOld
        refine .inr (.inr ⟨hOld, by simp, fun other hOtherNew => ?_⟩)
        obtain rfl := Option.some.inj hOtherNew
        exact hOther.symm
    | none =>
      refine .inr (.inr ⟨?_, by simp, by simp⟩)
      rcases memo_next_finish hEnters with hSame | hTrim
      · rwa [hSame] at hEntry
      · rw [hTrim] at hEntry
        exact mem_of_mem_trim hEntry
  | clear => cases hEntry

/-- An entry after an event is one that the event uses, with the tick of that use, or it was there
before and the event does not use its key. -/
theorem useOf?_of_mem_next {event : Event κ ν ε} {entry : MemoEntry κ ν}
    (hEntry : entry ∈ (now.next event).memo.entries) :
    now.useOf? entry.key event = some entry.lastUsed ∨
      now.useOf? entry.key event = none ∧ entry ∈ now.memo.entries := by
  rcases mem_next_cases hEntry with ⟨old, hOld, rfl, rfl⟩ | hEnters | ⟨hOld, hAsk, hNew⟩
  · left
    have hFound : (now.memo.find? old.key).isSome := by
      rw [Option.isSome_iff_ne_none, ne_eq, find?_eq_none_iff]
      exact fun hOther => hOther old hOld rfl
    simp [useOf?, hFound]
  · left
    obtain ⟨question, questions, value, rfl, -, -, -⟩ := entering?_eq_some_iff.1 hEnters
    simp [useOf?, hEnters]
  · refine .inr ⟨?_, hOld⟩
    cases event with
    | ask key =>
      have hKey : key ≠ entry.key := fun hKey => hAsk (by rw [hKey])
      simp [useOf?, hKey]
    | finish outcome =>
      cases hEnters : now.entering? (.finish outcome) with
      | some new => simp [useOf?, hEnters, hNew new hEnters]
      | none => simp [useOf?, hEnters]
    | clear => rfl

/-- The tick of an entry is that of the last use of its key, or the entry has been there from the
start without being used. -/
theorem lastUse?_of_mem_run (events : List (Event κ ν ε)) {now : Moment κ ν} {entry : MemoEntry κ ν}
    (hEntry : entry ∈ (now.run events).memo.entries) :
    now.lastUse? entry.key events = some entry.lastUsed ∨
      now.lastUse? entry.key events = none ∧ entry ∈ now.memo.entries := by
  induction events generalizing now with
  | nil => exact .inr ⟨rfl, hEntry⟩
  | cons event later ih =>
    rcases ih hEntry with hUsed | ⟨hUnused, hNext⟩
    · left
      simp only [lastUse?, hUsed, Option.some_or]
    · simpa only [lastUse?, hUnused, Option.none_or] using useOf?_of_mem_next hNext

end Moment

open Moment

variable [DecidableEq κ]

/-- Every memo that nested questions lead to is one at some moment of a run that starts with an
empty memo.  A fetch from such a moment, whose computation may do anything with the memo between,
goes on by events too: the last of them gives its answer and leaves its memo.  At every such moment
no two entries have the same tick, all of them were given out, there are no more entries than the
capacity, and the tick of an entry is that of the last use of its key.  An entry that enters stays
with all the others if there is room for it; if not, three quarters of the capacity stay, those that
were used last.  No other event drops an entry or changes the value under a key, except that
everything is forgotten. -/
theorem keeps_last_used_within_capacity (capacity : Nat) :
    (∀ (steps : List (Step κ ν ε)) (report : Report κ ν ε) (memo : Memo κ ν),
      report ∈ (runSteps steps { capacity }).1 → report.Shows memo →
        ∃ events : List (Event κ ν ε), ((start capacity).run events).memo = memo) ∧
    (∀ {σ : Type} {view : σ → Memo κ ν} {update : σ → Memo κ ν → σ} {compute : σ → Except ε ν × σ},
      (∀ state memo, view (update state memo) = memo) → Operates ε view compute →
      ∀ (key : κ) (state : σ) (questions : List (OpenQuestion κ)) (before : List (Event κ ν ε)),
        (start capacity).run before = ⟨view state, questions⟩ →
        ∃ (between : List (Event κ ν ε)) (event : Event κ ν ε),
          let last : Moment κ ν := (start capacity).run (before ++ between)
          last.answer? event = some (key, (fetch view update key compute state).1) ∧
          last.next event = ⟨view (fetch view update key compute state).2, questions⟩) ∧
    ∀ events : List (Event κ ν ε),
      let now : Moment κ ν := (start capacity).run events
      (now.memo.entries.map (·.lastUsed)).Nodup ∧
      (∀ entry ∈ now.memo.entries, entry.lastUsed < now.memo.clock) ∧
      now.memo.size ≤ capacity ∧
      (∀ entry ∈ now.memo.entries,
        (start capacity).lastUse? entry.key events = some entry.lastUsed) ∧
      (∀ (event : Event κ ν ε) (entry : MemoEntry κ ν), now.entering? event = some entry →
        let full := entry :: now.memo.entries
        let left := (now.next event).memo.entries
        (full.length ≤ capacity → left = full) ∧
        (capacity < full.length →
          left.length = 3 * capacity / 4 ∧ List.Sublist left full ∧
            ∀ gone ∈ full, gone ∉ left → ∀ stays ∈ left, gone.lastUsed < stays.lastUsed)) ∧
      ∀ event : Event κ ν ε, now.entering? event = none → event ≠ .clear →
        (now.next event).memo.entries.map (fun entry => (entry.key, entry.value)) =
          now.memo.entries.map (fun entry => (entry.key, entry.value)) := by
  refine ⟨fun steps report memo hReport hShows => ?_, ?fetch, fun events => ?_⟩
  case fetch =>
    intro σ view update compute hView hCompute key state questions before hBefore
    obtain ⟨_, event, ⟨between, rfl⟩, hAnswer, hNext⟩ :=
      exists_events_of_fetch hView hCompute key state questions
    refine ⟨between, event, ?_⟩
    rw [run_append, hBefore]
    exact ⟨hAnswer, hNext⟩
  · obtain ⟨later, ⟨events, hRun⟩, hMemo⟩ :=
      (leads_runSteps steps (start capacity)).2 report hReport memo hShows
    exact ⟨events, by rw [hRun, hMemo]⟩
  · intro now
    have hOrdered : now.Ordered := (ordered_start capacity).run events
    have hCapacity : now.memo.capacity = capacity := capacity_run (start capacity) events
    refine ⟨hOrdered.lastUsed_nodup, fun entry hEntry => hOrdered.lastUsed_lt hEntry,
      hCapacity ▸ hOrdered.size_le, fun entry hEntry => ?_, fun event entry hEnters => ?_,
      fun event => hOrdered.entries_next⟩
    · rcases lastUse?_of_mem_run events hEntry with hUsed | ⟨-, hStart⟩
      · exact hUsed
      · cases hStart
    · intro full left
      let all : Memo κ ν := { now.memo with entries := full }
      have hLeft : left = all.trim.entries := congrArg (·.entries) (memo_next_of_entering? hEnters)
      rw [hLeft, ← hCapacity]
      refine ⟨fun hRoom => ?_, fun hFull => ?_⟩
      · have hAll : all.trim = all := trim_of_size_le hRoom
        rw [hAll]
      obtain ⟨hSize, hSublist, hLast⟩ : all.trim.size = all.kept ∧ _ :=
        trim_of_capacity_lt (hOrdered.lastUsed_nodup_cons hEnters) hFull
      exact ⟨hSize.trans (by rw [kept, Nat.mul_comm]), hSublist, hLast⟩

/-- What works out a question by asking for two other keys. -/
def askTwo (memo : Memo Nat Nat) : Except Unit Nat × Memo Nat Nat :=
  (.ok 0, (runSteps [.ask 1 [] (.ok 10 : Except Unit Nat), .ask 2 [] (.ok 20)] memo).2)

/-- With room for two, an outer question that asks for two other keys is dropped when it is worked
out: the inner ones were asked later.  Fetching its answer leaves the same memo. -/
theorem outer_entry_goes_first :
    let inner : List (Event Nat Nat Unit) :=
      [.ask 0, .ask 1, .finish (.ok 10), .ask 2, .finish (.ok 20)]
    let now : Moment Nat Nat := (start 2).run inner
    let after : Moment Nat Nat := now.next (.finish (.ok 0) : Event Nat Nat Unit)
    let fetched := fetch id (fun _ memo => memo) 0 askTwo { capacity := 2 }
    now.memo.size = 2 ∧ after.memo.size = 1 ∧ ⟨0, 0, 0⟩ ∉ after.memo.entries ∧
    fetched.2 = after.memo ∧ ∃ (between : List (Event Nat Nat Unit)) (event : Event Nat Nat Unit),
      ((start 2).run between).next event = ⟨fetched.2, []⟩ := by
  intro inner now after fetched
  have hAskTwo : Operates Unit id askTwo := fun memo questions =>
    (leads_runSteps _ ⟨memo, questions⟩).1
  obtain ⟨-, hFetch, hRun⟩ := keeps_last_used_within_capacity (κ := Nat) (ν := Nat) (ε := Unit) 2
  obtain ⟨between, event, -, hFetched⟩ :=
    @hFetch _ id (fun _ memo => memo) askTwo (fun _ _ => rfl) hAskTwo 0 { capacity := 2 } [] [] rfl
  obtain ⟨-, -, -, -, hEnters, -⟩ := hRun inner
  obtain ⟨hSize, -, hLast⟩ := (hEnters (.finish (.ok 0)) ⟨0, 0, 0⟩ rfl).2 (by decide)
  refine ⟨rfl, hSize, fun hStays => ?_, rfl, between, event, hFetched⟩
  have hBefore : ⟨2, 20, 2⟩ ∈ now.memo.entries := List.mem_cons_self
  have hInner : ⟨2, 20, 2⟩ ∈ after.memo.entries := by
    by_contra hGone
    have hEarlier := hLast ⟨2, 20, 2⟩ (List.mem_cons_of_mem _ hBefore) hGone ⟨0, 0, 0⟩ hStays
    exact absurd hEarlier (by decide)
  obtain ⟨only, hOnly⟩ := List.length_eq_one_iff.1 hSize
  rw [hOnly, List.mem_singleton] at hStays hInner
  exact nomatch hStays.trans hInner.symm

end GrammarSearch.Memo
