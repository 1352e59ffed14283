import GrammarSearch.Grammar.Source
import Mathlib.Data.List.Forall2
import Mathlib.Data.List.Induction
import Mathlib.Data.List.Nodup

/-!
# Injections as they are written

The injections of a grammar are read into a table in the order of their selectors.  To say what this
does to them, a second reader keeps them as they are written: `GrammarSource.writtenOfJson` reads a
grammar with its injections in the order of the text, a repeated selector as often as it is there.
The two readers go through every text in step.  That is proved once for records whose fields are
read alike (`Json.readAlike_record`), so only the field of the injections needs a look of its own.

## Main results

* `GrammarSource.ofJson_eq_map_inOrder`: reading a grammar is reading it as it is written, and
  bringing its injections in order.
* `GrammarSource.inOrder_injections_eq_iff`: injections with different selectors stay as they are
  written exactly if the selectors are in order.
-/

namespace GrammarSearch

namespace Json

variable {α β ρ τ : Type}

/-- Two results of reading leave the same text and have related values, or tell the same fault. -/
inductive ReadAlike (R : α → β → Prop) :
    Except Fault (α × Bytes) → Except Fault (β × Bytes) → Prop
  | ok {value : α} {other : β} {rest : Bytes} (h : R value other) :
      ReadAlike R (.ok (value, rest)) (.ok (other, rest))
  | error (fault : Fault) : ReadAlike R (.error fault) (.error fault)

namespace ReadAlike

variable {R : α → β → Prop} {S : ρ → τ → Prop}

/-- Readers that start with the same step read alike if they go on alike. -/
theorem same_first {γ : Type} {first : Except Fault γ} {f : γ → Except Fault (α × Bytes)}
    {g : γ → Except Fault (β × Bytes)} (hNext : ∀ x, ReadAlike R (f x) (g x)) :
    ReadAlike R (first >>= f) (first >>= g) := by
  cases first with
  | error fault => exact .error fault
  | ok x => exact hNext x

/-- Readers that start alike read alike if they go on alike with what was read. -/
theorem bind {first : Except Fault (α × Bytes)} {other : Except Fault (β × Bytes)}
    {f : α × Bytes → Except Fault (ρ × Bytes)} {g : β × Bytes → Except Fault (τ × Bytes)}
    (h : ReadAlike R first other)
    (hNext : ∀ x y rest, R x y → ReadAlike S (f (x, rest)) (g (y, rest))) :
    ReadAlike S (first >>= f) (other >>= g) := by
  cases h with
  | error fault => exact .error fault
  | ok hRelated => exact hNext _ _ _ hRelated

/-- What was read may be changed on one side. -/
theorem map_left {first : Except Fault (α × Bytes)} {other : Except Fault (β × Bytes)} {f : α → ρ}
    {S : ρ → β → Prop} (h : ReadAlike R first other) (hChange : ∀ x y, R x y → S (f x) y) :
    ReadAlike S (first >>= fun (value, rest) => .ok (f value, rest)) other := by
  cases h with
  | error fault => exact .error fault
  | ok hRelated => exact .ok (hChange _ _ hRelated)

end ReadAlike

/-! ## Objects and records -/

section Objects

variable {R : α → β → Prop} {entry : α → String → Reader α} {other : β → String → Reader β}
variable {inside : Reader α} {otherInside : Reader β}

theorem readAlike_enter (levels : Nat)
    (hInside : ∀ input, ReadAlike R (inside input) (otherInside input)) (input : Bytes) :
    ReadAlike R (enter levels inside input) (enter levels otherInside input) := by
  unfold enter
  split
  · exact .error _
  · exact hInside input

theorem readAlike_entries
    (hEntry : ∀ x y key input, R x y → ReadAlike R (entry x key input) (other y key input))
    (budget : Nat) {x : α} {y : β} (h : R x y) (input : Bytes) :
    ReadAlike R (entries entry budget x input) (entries other budget y input) := by
  induction budget generalizing x y input with
  | zero => exact .error _
  | succ budget ih =>
    refine .same_first fun ⟨key, rest⟩ => ?_
    refine .bind (hEntry x y key rest h) fun x y rest h => ?_
    refine .same_first fun next => ?_
    cases next with
    | none => exact .ok h
    | some rest => exact ih h rest

theorem readAlike_object
    (hEntry : ∀ x y key input, R x y → ReadAlike R (entry x key input) (other y key input))
    {x : α} {y : β} (h : R x y) (input : Bytes) :
    ReadAlike R (object entry x input) (object other y input) := by
  refine .same_first fun ⟨next, input⟩ => ?_
  dsimp only
  split
  · exact .ok h
  · exact readAlike_entries hEntry _ h input

end Objects

section Records

variable {R : ρ → τ → Prop} {fields : List (RecordField ρ)} {others : List (RecordField τ)}

/-- Two fields have one name, and their values change related records alike. -/
structure RecordField.Alike (R : ρ → τ → Prop) (known : RecordField ρ) (other : RecordField τ) :
    Prop where
  name_eq : known.name = other.name
  read : ∀ input, ReadAlike (fun change otherChange => ∀ x y, R x y → R (change x) (otherChange y))
    (known.read input) (other.read input)

/-- A field is like itself if its values change related records alike. -/
theorem RecordField.Alike.of_same {R : ρ → ρ → Prop} (name : String) (reader : Reader α)
    (set : α → ρ → ρ) (hSet : ∀ value x y, R x y → R (set value x) (set value y)) :
    RecordField.Alike R (field name reader set) (field name reader set) where
  name_eq := rfl
  read _ := .same_first fun ⟨value, _⟩ => .ok (hSet value)

variable (hFields : List.Forall₂ (RecordField.Alike R) fields others)

include hFields

/-- A name finds fields that are alike, or none in either list. -/
theorem find?_alike (key : String) :
    Option.Rel (RecordField.Alike R) (fields.find? fun known => known.name == key)
      (others.find? fun known => known.name == key) := by
  induction hFields with
  | nil => exact .none
  | cons hField _ ih =>
    rw [List.find?_cons, List.find?_cons, hField.name_eq]
    split
    · exact .some hField
    · exact ih

theorem readAlike_recordEntry {x : ρ × List String} {y : τ × List String}
    (h : R x.1 y.1 ∧ x.2 = y.2) (key : String) (input : Bytes) :
    ReadAlike (fun x y => R x.1 y.1 ∧ x.2 = y.2) (recordEntry fields x key input)
      (recordEntry others y key input) := by
  have hFound := find?_alike hFields key
  unfold recordEntry
  generalize fields.find? _ = known at hFound ⊢
  generalize others.find? _ = other at hFound ⊢
  cases hFound with
  | none =>
    refine .same_first fun rest => ?_
    exact .same_first fun rest => .ok h
  | some hAlike =>
    dsimp only
    rw [h.2]
    split
    · exact .error _
    · refine .same_first fun rest => ?_
      refine .bind (hAlike.read rest) fun change otherChange rest hChange => ?_
      exact .ok ⟨hChange _ _ h.1, rfl⟩

theorem readAlike_tupleRest {x : ρ} {y : τ} (h : R x y) (input : Bytes) :
    ReadAlike R (tupleRest fields x input) (tupleRest others y input) := by
  induction hFields generalizing x y input with
  | nil =>
    refine .same_first fun ⟨b, input⟩ => ?_
    dsimp only
    split
    · exact .ok h
    · exact .error _
  | cons hField _ ih =>
    refine .same_first fun next => ?_
    cases next with
    | none => exact .ok h
    | some rest =>
      refine .bind (hField.read rest) fun change otherChange rest hChange => ?_
      exact ih (hChange x y h) rest

theorem readAlike_tuple {x : ρ} {y : τ} (h : R x y) (input : Bytes) :
    ReadAlike R (tuple fields x input) (tuple others y input) := by
  refine .same_first fun ⟨next, input⟩ => ?_
  cases hFields with
  | nil => exact readAlike_tupleRest .nil h input
  | cons hField hRest =>
    dsimp only
    split
    · exact .ok h
    · refine .bind (hField.read input) fun change otherChange rest hChange => ?_
      exact readAlike_tupleRest hRest (hChange x y h) rest

/-- Records whose fields are alike are read alike. -/
theorem readAlike_record (levels : Nat) {x : ρ} {y : τ} (h : R x y) (input : Bytes) :
    ReadAlike R (record levels fields x input) (record levels others y input) := by
  refine .same_first fun ⟨b, input⟩ => ?_
  dsimp only
  split
  · refine .bind (readAlike_enter levels (readAlike_object (fun x y key input h =>
      readAlike_recordEntry hFields h key input) ⟨h, rfl⟩) input) fun x y rest h => ?_
    exact .ok h.1
  split
  · exact readAlike_enter levels (readAlike_tuple hFields h) input
  · exact .error _

end Records

/-- Readers that read alike up to a function give the same value of a whole text up to it. -/
theorem readWhole_of_readAlike {reader : Reader α} {other : Reader β} {f : β → α}
    (h : ∀ input, ReadAlike (fun value otherValue => value = f otherValue) (reader input)
      (other input)) (input : Bytes) :
    readWhole reader input = (readWhole other input).map f := by
  have hInput := h input
  unfold readWhole
  generalize reader input = first at hInput ⊢
  generalize other input = second at hInput ⊢
  cases hInput with
  | error fault => rfl
  | ok hValue =>
    subst hValue
    simp only [bind, Except.bind, finish]
    split <;> rfl

/-- An object with any names: its values as they are written, each with its name. -/
def listing (levels : Nat) (item : Reader α) : Reader (List (String × α)) := fun input => do
  let (b, input) ← peek input
  if b = byte '\x7b' then
    enter levels (object (fun gathered key input => do
      let rest ← skipColon input
      let (value, rest) ← item rest
      .ok (gathered ++ [(key, value)], rest)) []) input
  else
    .error (wrongType input)

end Json

/-! ## Tables of what is listed -/

namespace Table

variable {α : Type} {table : Table α}

/-- The table that listed values are put into, one after another. -/
def ofListed (listed : List (String × α)) : Table α :=
  listed.foldl (fun table (name, value) => table.put name value) []

theorem ofListed_append_singleton (listed : List (String × α)) (name : String) (value : α) :
    ofListed (listed ++ [(name, value)]) = (ofListed listed).put name value := by
  rw [ofListed, List.foldl_append]
  rfl

theorem put_eq_append {name : String} (hNew : name ∉ table.map Prod.fst) (value : α) :
    table.put name value = table ++ [(name, value)] := by
  induction table with
  | nil => rfl
  | cons entry rest ih =>
    rw [List.map_cons, List.mem_cons, not_or] at hNew
    rw [put, if_neg (Ne.symm hNew.1), ih hNew.2, List.cons_append]

/-- Values under different names are put into a table as they are listed. -/
theorem ofListed_of_nodup {listed : List (String × α)} (hNodup : (listed.map Prod.fst).Nodup) :
    ofListed listed = listed := by
  induction listed using List.reverseRecOn with
  | nil => rfl
  | append_singleton before entry ih =>
    rw [List.map_append, List.nodup_append] at hNodup
    obtain ⟨hBefore, -, hOther⟩ := hNodup
    rw [ofListed_append_singleton, ih hBefore, put_eq_append]
    intro hMem
    exact hOther _ hMem _ (List.mem_singleton_self entry.1) rfl

theorem sorted_perm (table : Table α) : table.sorted.Perm table :=
  List.mergeSort_perm table _

theorem pairwise_sorted (table : Table α) :
    table.sorted.Pairwise fun first second => first.1 ≤ second.1 := by
  have hSorted : table.sorted.Pairwise fun first second => decide (first.1 ≤ second.1) = true := by
    refine List.pairwise_mergeSort ?_ ?_ table
    · intro a b c hab hbc
      rw [decide_eq_true_eq] at hab hbc ⊢
      exact String.le_trans hab hbc
    · intro a b
      simpa using String.le_total a.1 b.1
  exact hSorted.imp of_decide_eq_true

/-- Different names are in strict order. -/
theorem pairwise_lt_sorted (hNodup : (table.map Prod.fst).Nodup) :
    (table.sorted.map Prod.fst).Pairwise (· < ·) := by
  have hLe : (table.sorted.map Prod.fst).Pairwise (· ≤ ·) :=
    List.pairwise_map.2 table.pairwise_sorted
  have hNe : (table.sorted.map Prod.fst).Nodup :=
    (table.sorted_perm.map Prod.fst).nodup_iff.2 hNodup
  refine (hLe.and hNe).imp fun ⟨hLe, hNe⟩ => ?_
  exact String.not_le.1 fun hBack => hNe (String.le_antisymm hLe hBack)

/-- The entries of a table have only one strict order of their names. -/
theorem sorted_eq_of_perm {other : Table α} (hPerm : other.Perm table)
    (hLt : (other.map Prod.fst).Pairwise (· < ·)) : table.sorted = other := by
  have hNodup : (other.map Prod.fst).Nodup := by
    refine hLt.imp ?_
    rintro name _ hLt rfl
    exact String.lt_irrefl name hLt
  have hLe : other.Pairwise fun first second => first.1 ≤ second.1 :=
    (List.pairwise_map.1 hLt).imp fun hLt => String.not_lt.1 (String.lt_asymm hLt)
  have hSame : table.sorted.Perm other := table.sorted_perm.trans hPerm.symm
  refine hSame.eq_of_pairwise ?_ table.pairwise_sorted hLe
  intro first second hFirst hSecond hThere hBack
  exact List.inj_on_of_nodup_map hNodup (hSame.mem_iff.1 hFirst) hSecond
    (String.le_antisymm hThere hBack)

end Table

namespace GrammarSource

open Json (Reader RecordField field)

/-- The fields of a grammar, with the injections as they are written. -/
def fieldsAsWritten : List (RecordField GrammarSource) :=
  let levels := Json.maxLevels - 1
  let rule := RuleSource.reader (levels - 1)
  fields.map fun known =>
    if known.name = "injections" then
      field "injections" (Json.listing levels rule) fun injections source =>
        { source with injections }
    else
      known

/-- Reads a grammar from a JSON text, with the injections as they are written. -/
def writtenOfJson (text : String) : Except Json.Fault GrammarSource :=
  Json.readWhole (Json.record Json.maxLevels fieldsAsWritten {}) text.toUTF8.toList

/-- A grammar with a table of its injections in the order of their selectors. -/
def inOrder (source : GrammarSource) : GrammarSource :=
  { source with injections := (Table.ofListed source.injections).sorted }

/-- Injections are put into a table while they are read, and sorted then. -/
theorem alike_injections (levels : Nat) (rule : Reader RuleSource) :
    RecordField.Alike (fun source written => source = inOrder written)
      (field "injections" (sortedTable levels rule) fun injections source =>
        { source with injections })
      (field "injections" (Json.listing levels rule) fun injections source =>
        { source with injections }) where
  name_eq := rfl
  read input := by
    have hTable : Json.ReadAlike (fun table listed => table = Table.ofListed listed)
        (Json.table levels rule input) (Json.listing levels rule input) := by
      refine .same_first fun ⟨b, input⟩ => ?_
      dsimp only
      split
      · refine Json.readAlike_enter levels (fun input => Json.readAlike_object ?_ ?_ input) input
        · rintro _ listed key input rfl
          refine .same_first fun rest => ?_
          refine .same_first fun ⟨value, rest⟩ => ?_
          exact .ok (Table.ofListed_append_singleton listed key value).symm
        · rfl
      · exact .error _
    have hSorted : Json.ReadAlike (fun table listed => table = (Table.ofListed listed).sorted)
        (sortedTable levels rule input) (Json.listing levels rule input) :=
      hTable.map_left fun _ _ hSame => congrArg Table.sorted hSame
    refine hSorted.bind fun table listed rest hSame => .ok ?_
    rintro _ written rfl
    rw [hSame]
    rfl

theorem alike_fields :
    List.Forall₂ (RecordField.Alike fun source written => source = inOrder written) fields
      fieldsAsWritten := by
  have hSame {α : Type} (name : String) (reader : Reader α)
      (set : α → GrammarSource → GrammarSource)
      (hSet : ∀ value written, set value (inOrder written) = inOrder (set value written)) :
      RecordField.Alike (fun source written => source = inOrder written) (field name reader set)
        (field name reader set) :=
    .of_same name reader set fun value _ written hSource => hSource ▸ hSet value written
  rw [fieldsAsWritten, List.forall₂_map_right_iff, List.forall₂_same]
  simp only [fields, List.forall_mem_cons]
  refine ⟨?_, ?_, ?_, ?_, ?_, ?_, ?_, fun _ hMem => absurd hMem List.not_mem_nil⟩
  case refine_5 =>
    rw [if_pos (by decide)]
    exact alike_injections _ _
  all_goals
    rw [if_neg (by decide)]
    exact hSame _ _ _ fun _ _ => rfl

/-- Reading a grammar is reading it as it is written, and bringing its injections in order. -/
theorem ofJson_eq_map_inOrder (text : String) :
    ofJson text = (writtenOfJson text).map inOrder := by
  have hNone : Table.sorted ([] : Table RuleSource) = [] :=
    Table.sorted_eq_of_perm .nil .nil
  have hEmpty : ({} : GrammarSource) = inOrder {} := by
    show _ = { ({} : GrammarSource) with injections := Table.sorted [] }
    rw [hNone]
  exact Json.readWhole_of_readAlike (Json.readAlike_record alike_fields _ hEmpty) _

/-! ## What the order does -/

variable {written : GrammarSource}

theorem injections_inOrder (hNodup : (written.injections.map Prod.fst).Nodup) :
    written.inOrder.injections = Table.sorted written.injections :=
  congrArg Table.sorted (Table.ofListed_of_nodup hNodup)

/-- Injections with different selectors stay as they are written exactly if their selectors are in
order. -/
theorem inOrder_injections_eq_iff (hNodup : (written.injections.map Prod.fst).Nodup) :
    written.inOrder.injections = written.injections ↔
      (written.injections.map Prod.fst).Pairwise (· < ·) := by
  rw [injections_inOrder hNodup]
  constructor
  · intro hSame
    rw [← hSame]
    exact Table.pairwise_lt_sorted hNodup
  · exact Table.sorted_eq_of_perm (.refl _)

end GrammarSource

end GrammarSearch
