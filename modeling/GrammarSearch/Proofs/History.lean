import GrammarSearch.Proofs.SearchRules

/-!
# Sessions that a host can reach

A host makes lines from texts, searches them, looks for the ends of regions, clears what was
remembered and cancels tokens, in any order.  `Engine.Reachable` holds of every session that comes
out of such a history, also where calls failed on the way.  The lines of a history are those of one
supply, so a line is known by its identity.
-/

namespace GrammarSearch

namespace LineSupply

private theorem le_id_of_mem {supply : LineSupply} {texts : List String} {line : Line}
    (h : line ∈ (supply.lines texts).1) : supply.next ≤ line.id := by
  induction texts generalizing supply with
  | nil => simp [lines] at h
  | cons text rest ih =>
    rcases List.mem_cons.1 h with rfl | h
    · exact Nat.le_refl _
    · have hMem : line ∈ (LineSupply.lines ⟨supply.next + 1⟩ rest).1 := h
      have hLater : supply.next + 1 ≤ line.id := ih hMem
      omega

/-- Lines of one supply with one identity are one line. -/
theorem eq_of_id_eq {supply : LineSupply} {texts : List String} {a b : Line}
    (ha : a ∈ (supply.lines texts).1) (hb : b ∈ (supply.lines texts).1) (hId : a.id = b.id) :
    a = b := by
  induction texts generalizing supply with
  | nil => simp [lines] at ha
  | cons text rest ih =>
    have hLater {line : Line} (h : line ∈ (LineSupply.lines ⟨supply.next + 1⟩ rest).1) :
        supply.next + 1 ≤ line.id := le_id_of_mem h
    rcases List.mem_cons.1 ha with rfl | ha
    · rcases List.mem_cons.1 hb with rfl | hb
      · rfl
      · have hFirst : supply.next = b.id := hId
        have := hLater hb
        omega
    · rcases List.mem_cons.1 hb with rfl | hb
      · have hFirst : a.id = supply.next := hId
        have := hLater ha
        omega
      · exact ih ha hb

end LineSupply

namespace Engine

variable {σ : Type}

/-- The sessions that calls on lines of a host lead to, whatever the calls gave. -/
inductive Reachable (engine : Engine σ) (lines : List Line) : Session σ → Prop
  | new : Reachable engine lines engine.newSession
  | first {session : Session σ} (before : Reachable engine lines session) {query : Query}
      (hLine : query.line ∈ lines) (node : NodeId) (priority : Priority) :
      Reachable engine lines ((engine.first query node priority).run.run session).2
  | closing {session : Session σ} (before : Reachable engine lines session) (opened : Outcome)
      (line : Line) (offset : Nat) :
      Reachable engine lines ((engine.closing opened line offset).run.run session).2
  | clear {session : Session σ} (before : Reachable engine lines session) :
      Reachable engine lines (clear session)
  | cancel {session : Session σ} (before : Reachable engine lines session) (token : CancelToken) :
      Reachable engine lines { session with cancelled := session.cancelled.cancel token }

/-- Looking for the end of a region touches the end patterns only. -/
theorem meets_closing {keeps : Session σ → Prop} {engine : Engine σ}
    (hKeeps : ∀ (session : Session σ) (endPatterns : Shelf String Pattern),
      keeps session → keeps { session with endPatterns })
    (opened : Outcome) (line : Line) (offset : Nat) :
    Search.Meets keeps (engine.closing opened line offset) fun _ => True := by
  have hPattern (source : String) :
      Search.Meets keeps (endPattern source : Search σ Pattern) fun _ => True := by
    intro session hSession
    refine ⟨fun _ _ => trivial, ?_⟩
    have hGet : (get : Search σ (Session σ)).run.run session = (.ok session, session) := rfl
    unfold endPattern
    rw [Search.run_bind, hGet]
    dsimp only
    split
    · exact hSession
    · exact hKeeps session _ hSession
  unfold closing
  split
  · exact Search.meets_throw _
  · split
    · exact Search.meets_pure trivial
    · refine Search.meets_bind (hPattern _) ?_
      intro pattern _ session hSession
      exact ⟨fun _ _ => trivial, hSession⟩

/-- A relation between keys and answers that searches keep holds of every memo a host can reach. -/
theorem Reachable.memo_holds {engine : Engine σ} {lines : List Line}
    {p : SearchKey → Outcome → Prop}
    (hFirst : ∀ query : Query, query.line ∈ lines → ∀ node priority,
      Search.Meets (fun session => session.memo.Holds p) (engine.first query node priority)
        fun _ => True)
    {session : Session σ} (hReachable : engine.Reachable lines session) :
    session.memo.Holds p := by
  induction hReachable with
  | new =>
    intro entry hEntry
    simp [newSession] at hEntry
  | first _ hLine node priority ih => exact (hFirst _ hLine node priority _ ih).2
  | closing _ opened line offset ih =>
    have hClosing : Search.Meets (fun session => session.memo.Holds p)
        (engine.closing opened line offset) fun _ => True :=
      meets_closing (fun _ _ hSession => hSession) opened line offset
    exact (hClosing _ ih).2
  | clear _ _ => exact Memo.holds_clear _
  | cancel _ _ ih => exact ih

end Engine

end GrammarSearch
