import GrammarSearch.Weigher
import Mathlib.Data.List.Dedup
import Mathlib.Data.List.Induction
import Mathlib.Data.List.Perm.Basic

/-!
# A weigher that remembers

`Weigher.remembering` answers as the weigher behind it and saves questions.  Which ones is said by
the questions asked alone, without a shelf: `sinceEmptied` lists those since the shelf was last
emptied, and a question empties it if it is not one of them and they are as many different ones as
the capacity.  The invariant `Remembers` says that just these questions are on the shelf, each once
and with the weight of the weigher behind.

## Main results

* `Remembers.ask`: a question keeps the invariant, whether it is found, stored or empties the shelf.
* `remembering_asks_once_since_emptied`: what every question of every sequence does.
-/

namespace GrammarSearch.Weigher

variable {σ : Type}

/-- The state after questions asked one after another. -/
def after (weigher : Weigher σ) (questions : List (String × String)) : σ :=
  questions.foldl (fun state question => (weigher.ask question.1 question.2 state).state)
    weigher.initial

/-- The questions since the last emptying after one more. -/
def askedMore (capacity : Nat) (recent : List (String × String)) (question : String × String) :
    List (String × String) :=
  if question ∉ recent ∧ capacity ≤ recent.dedup.length then [question] else recent ++ [question]

/-- The questions asked since a shelf of some capacity was last emptied, with the one that emptied
it. -/
def sinceEmptied (capacity : Nat) (questions : List (String × String)) : List (String × String) :=
  questions.foldl (askedMore capacity) []

theorem after_append_singleton (weigher : Weigher σ) (questions : List (String × String))
    (question : String × String) :
    weigher.after (questions ++ [question]) =
      (weigher.ask question.1 question.2 (weigher.after questions)).state := by
  simp [after]

theorem sinceEmptied_append_singleton (capacity : Nat) (questions : List (String × String))
    (question : String × String) :
    sinceEmptied capacity (questions ++ [question]) =
      askedMore capacity (sinceEmptied capacity questions) question := by
  simp [sinceEmptied]

theorem Answers.recording {weigher : Weigher σ} {weight : String → String → Weight}
    (h : weigher.Answers weight) : weigher.recording.Answers weight :=
  fun selector scope recorded => h selector scope recorded.state

/-! ## The invariant -/

/-- On the shelf are the questions of a list, each once, with the weights of a function. -/
structure Remembers (weight : String → String → Weight) (capacity : Nat)
    (recent : List (String × String)) (remembered : Remembered σ) : Prop where
  capacity_eq : remembered.weights.capacity = capacity
  keys_nodup : remembered.weights.keys.Nodup
  mem_keys_iff : ∀ question, question ∈ remembered.weights.keys ↔ question ∈ recent
  weights_hold : remembered.weights.Holds fun question value =>
    value = weight question.1 question.2
  size_le : remembered.size ≤ max 1 capacity

variable {weigher : Weigher σ} {weight : String → String → Weight} {capacity : Nat}
variable {recent : List (String × String)} {remembered : Remembered σ}

namespace Remembers

/-- As many weights are remembered as there are different questions in the list. -/
theorem size_eq (h : Remembers weight capacity recent remembered) :
    remembered.size = recent.dedup.length := by
  have hPerm : remembered.weights.keys.Perm recent.dedup := by
    apply (List.perm_ext_iff_of_nodup h.keys_nodup (List.nodup_dedup recent)).2
    intro question
    rw [h.mem_keys_iff, List.mem_dedup]
  rw [Remembered.size, ← Shelf.length_keys, hPerm.length_eq]

theorem find?_eq_none_iff (h : Remembers weight capacity recent remembered)
    (question : String × String) :
    remembered.weights.find? question = none ↔ question ∉ recent := by
  rw [Shelf.find?_eq_none_iff, h.mem_keys_iff]

theorem mem_of_find?_eq_some (h : Remembers weight capacity recent remembered)
    {question : String × String} {value : Weight}
    (hFind : remembered.weights.find? question = some value) : question ∈ recent := by
  by_contra hNew
  rw [(h.find?_eq_none_iff question).2 hNew] at hFind
  contradiction

end Remembers

/-- A question is answered from the shelf if it is one of the list, and nothing changes.  Else it is
passed on, and its answer is put on the shelf. -/
theorem Remembers.ask_cases (hAnswers : weigher.Answers weight)
    (h : Remembers weight capacity recent remembered) (question : String × String) :
    (question ∈ recent ∧
      (weigher.remembering capacity).ask question.1 question.2 remembered =
        { weight := weight question.1 question.2, state := remembered }) ∨
    (question ∉ recent ∧
      (weigher.remembering capacity).ask question.1 question.2 remembered =
        { weight := weight question.1 question.2
          state := ⟨(weigher.ask question.1 question.2 remembered.state).state,
            remembered.weights.put question (weight question.1 question.2)⟩
          cancelled := (weigher.ask question.1 question.2 remembered.state).cancelled }) := by
  cases hFind : remembered.weights.find? question with
  | some value =>
    left
    obtain rfl : value = weight question.1 question.2 := h.weights_hold.of_find? hFind
    refine ⟨h.mem_of_find?_eq_some hFind, ?_⟩
    simp only [remembering, hFind]
  | none =>
    right
    refine ⟨(h.find?_eq_none_iff question).1 hFind, ?_⟩
    simp only [remembering, hFind, hAnswers question.1 question.2 remembered.state]

namespace Remembers

/-- What is put on the shelf is the only entry of a full one, and is added to another. -/
theorem put (h : Remembers weight capacity recent remembered) {question : String × String}
    (hNew : question ∉ recent) (state : σ) :
    Remembers weight capacity (askedMore capacity recent question)
      (⟨state, remembered.weights.put question (weight question.1 question.2)⟩ :
        Remembered σ) := by
  have hSize : remembered.weights.size = recent.dedup.length := h.size_eq
  have hKeys : (remembered.weights.put question (weight question.1 question.2)).keys =
      question :: if capacity ≤ recent.dedup.length then [] else remembered.weights.keys := by
    simp only [Shelf.keys, Shelf.put, List.map_cons, h.capacity_eq, hSize]
    split
    · rfl
    · rfl
  refine ⟨h.capacity_eq, ?_, ?_, h.weights_hold.put rfl, ?_⟩
  · rw [hKeys]
    split
    · exact List.nodup_singleton question
    · exact List.nodup_cons.2 ⟨fun hMem => hNew ((h.mem_keys_iff question).1 hMem), h.keys_nodup⟩
  · intro other
    rw [hKeys, askedMore]
    by_cases hFull : capacity ≤ recent.dedup.length
    · rw [if_pos hFull, if_pos ⟨hNew, hFull⟩]
    · rw [if_neg hFull, if_neg fun hEmpties => hFull hEmpties.2, List.mem_cons, List.mem_append,
        List.mem_singleton, h.mem_keys_iff]
      exact Or.comm
  · have hPut := Shelf.size_put_le remembered.weights question (weight question.1 question.2)
    rw [h.capacity_eq] at hPut
    exact hPut

/-- A question that is on the shelf is added to the list only. -/
theorem again (h : Remembers weight capacity recent remembered) {question : String × String}
    (hOld : question ∈ recent) :
    Remembers weight capacity (askedMore capacity recent question) remembered := by
  refine ⟨h.capacity_eq, h.keys_nodup, ?_, h.weights_hold, h.size_le⟩
  intro other
  rw [h.mem_keys_iff, askedMore, if_neg fun hEmpties => hEmpties.1 hOld, List.mem_append,
    List.mem_singleton]
  constructor
  · exact Or.inl
  · rintro (hMem | rfl)
    · exact hMem
    · exact hOld

/-- A question keeps the invariant. -/
theorem ask (hAnswers : weigher.Answers weight) (h : Remembers weight capacity recent remembered)
    (question : String × String) :
    Remembers weight capacity (askedMore capacity recent question)
      ((weigher.remembering capacity).ask question.1 question.2 remembered).state := by
  rcases h.ask_cases hAnswers question with ⟨hOld, hReply⟩ | ⟨hNew, hReply⟩
  · rw [hReply]
    exact h.again hOld
  · rw [hReply]
    exact h.put hNew _

end Remembers

/-- After any questions, those since the last emptying are on the shelf. -/
theorem remembers_after (hAnswers : weigher.Answers weight) (capacity : Nat)
    (questions : List (String × String)) :
    Remembers weight capacity (sinceEmptied capacity questions)
      ((weigher.remembering capacity).after questions) := by
  induction questions using List.reverseRecOn with
  | nil =>
    refine ⟨rfl, List.nodup_nil, fun _ => Iff.rfl, ?_, Nat.zero_le _⟩
    intro entry hEntry
    contradiction
  | append_singleton earlier question ih =>
    rw [after_append_singleton, sinceEmptied_append_singleton]
    exact ih.ask hAnswers question

/-! ## What a question does -/

/-- In every sequence of questions, each is answered as the weigher behind answers it.  That weigher
is asked exactly if the question was not asked since the shelf was last emptied.  A question that is
not on the shelf is the only one there afterwards if as many as the capacity were, and is added
otherwise; one that is there changes nothing.  The questions on the shelf are those since the last
emptying, and never more than `max 1 capacity`. -/
theorem remembering_asks_once_since_emptied (hAnswers : weigher.Answers weight) (capacity : Nat)
    (earlier : List (String × String)) (question : String × String) :
    let caching := weigher.recording.remembering capacity
    let before := caching.after earlier
    let reply := caching.ask question.1 question.2 before
    let recent := sinceEmptied capacity earlier
    reply.weight = weight question.1 question.2 ∧
    reply.state.state.questions =
      (if question ∈ recent then before.state.questions
        else question :: before.state.questions) ∧
    reply.state.weights.entries =
      (if question ∈ before.weights.keys then before.weights.entries
        else if capacity ≤ before.size then [(question, weight question.1 question.2)]
        else (question, weight question.1 question.2) :: before.weights.entries) ∧
    before.weights.keys.Nodup ∧
    (∀ other, other ∈ before.weights.keys ↔ other ∈ recent) ∧
    before.size = recent.dedup.length ∧
    before.size ≤ max 1 capacity := by
  intro caching before reply recent
  have hBefore : Remembers weight capacity recent before :=
    remembers_after hAnswers.recording capacity earlier
  have hStored := hBefore.mem_keys_iff question
  rcases hBefore.ask_cases hAnswers.recording question with ⟨hOld, hReply⟩ | ⟨hNew, hReply⟩
  · have hReply : reply = _ := hReply
    rw [hReply, if_pos hOld, if_pos (hStored.2 hOld)]
    exact ⟨rfl, rfl, rfl, hBefore.keys_nodup, hBefore.mem_keys_iff, hBefore.size_eq,
      hBefore.size_le⟩
  · have hReply : reply = _ := hReply
    have hEntries : (before.weights.put question (weight question.1 question.2)).entries =
        if capacity ≤ before.size then [(question, weight question.1 question.2)]
        else (question, weight question.1 question.2) :: before.weights.entries := by
      rw [Shelf.put, hBefore.capacity_eq, Remembered.size]
      split
      · rfl
      · rfl
    rw [hReply, if_neg hNew, if_neg fun hMem => hNew (hStored.1 hMem)]
    exact ⟨rfl, rfl, hEntries, hBefore.keys_nodup, hBefore.mem_keys_iff, hBefore.size_eq,
      hBefore.size_le⟩

/-- With room for two, a question asked again is found and a third one empties the shelf. -/
theorem third_question_empties_shelf_of_two :
    let caching := selectors.recording.remembering 2
    let full := caching.after
      [("L:source", "source"), ("comment", "source"), ("L:source", "source")]
    let emptied := (caching.ask "text" "source" full).state
    full.state.questions = [("comment", "source"), ("L:source", "source")] ∧
    full.size = 2 ∧
    emptied.state.questions = ("text", "source") :: full.state.questions ∧
    emptied.weights.entries = [(("text", "source"), Selector.weightOf "text" "source")] := by
  intro caching full emptied
  obtain ⟨-, hAsked, hEntries, -, hKeys, hSize, -⟩ :=
    remembering_asks_once_since_emptied (answers_ofFunction Selector.weightOf) 2
      [("L:source", "source"), ("comment", "source"), ("L:source", "source")] ("text", "source")
  have hTwo : full.size = 2 := by
    apply hSize.trans
    decide
  refine ⟨?_, hTwo, ?_, ?_⟩
  · rfl
  · apply hAsked.trans
    apply if_neg
    decide
  · apply hEntries.trans
    rw [if_neg, if_pos]
    · exact Nat.le_of_eq hTwo.symm
    · rw [hKeys]
      decide

end GrammarSearch.Weigher
