/-!
# Priorities

The tier of a match, consulted only between matches that start at the same offset.
-/

namespace GrammarSearch

/-- The tier of a match: an injection marked `L:` has high priority, one marked `R:` low. -/
inductive Priority where
  | low
  | normal
  | high
deriving DecidableEq, Repr, Inhabited

namespace Priority

/-- The place of a priority in their order, lowest first. -/
def rank : Priority → Nat
  | low => 0
  | normal => 1
  | high => 2

instance : LT Priority := ⟨fun a b => a.rank < b.rank⟩

instance : LE Priority := ⟨fun a b => a.rank ≤ b.rank⟩

instance (a b : Priority) : Decidable (a < b) := inferInstanceAs (Decidable (a.rank < b.rank))

instance (a b : Priority) : Decidable (a ≤ b) := inferInstanceAs (Decidable (a.rank ≤ b.rank))

theorem lt_iff_rank {a b : Priority} : a < b ↔ a.rank < b.rank := Iff.rfl

theorem le_iff_rank {a b : Priority} : a ≤ b ↔ a.rank ≤ b.rank := Iff.rfl

/-- Priorities with one rank are one priority. -/
theorem rank_inj {a b : Priority} : a.rank = b.rank ↔ a = b := by
  cases a <;> cases b <;> decide

/-- The name of a priority. -/
def name : Priority → String
  | low => "Low"
  | normal => "Normal"
  | high => "High"

/-- The priority of a name, which is case sensitive. -/
def ofName? (text : String) : Option Priority :=
  [low, normal, high].find? fun priority => priority.name == text

end Priority

end GrammarSearch
