import GrammarSearch.Failure
import GrammarSearch.Json.Ignored
import GrammarSearch.Json.Number
import GrammarSearch.Priority
import GrammarSearch.Table

/-!
# Reading typed values from JSON texts

Each reader expects a value of one type. A value of another type is a mismatch, but it is read to
its end first unless it is an array or object, so that what is malformed in it is found before.

Arrays and objects that are read, not passed over, may be nested in each other up to a number of
levels. A record is an object with known fields, or an array of their values in the order of the
fields; fields left out keep their defaults, and unknown fields are passed over.

A priority is written by name and a handle as its number, which fits 32 bits.
-/

namespace GrammarSearch.Json

/-- How many arrays and objects may be open at once. -/
def maxLevels : Nat := 127

/-- The problem of a value that is not of the type expected, at its first byte. -/
def wrongType (text : Bytes) : Fault :=
  match text with
  | [] => .truncated
  | b :: rest =>
    let outcome : Except Fault Unit :=
      if b = byte 'n' then (skipWord ['u', 'l', 'l'] rest).map fun _ => ()
      else if b = byte 't' then (skipWord ['r', 'u', 'e'] rest).map fun _ => ()
      else if b = byte 'f' then (skipWord ['a', 'l', 's', 'e'] rest).map fun _ => ()
      else if b = byte '-' || isDigit b then (readNumber text).map fun _ => ()
      else if b = byte '"' then (readText rest).map fun _ => ()
      else if b = byte '[' || b = byte '\x7b' then .ok ()
      else .error .malformed
    match outcome with
    | .ok () => .mismatch
    | .error fault => fault

/-! ## Plain values -/

/-- A string. -/
def text : Reader String := fun input => do
  let (b, input) ← peek input
  if b = byte '"' then readText input.tail else .error (wrongType input)

/-- A string, or `null` for none. -/
def optionalText : Reader (Option String) := fun input => do
  let (b, input) ← peek input
  if b = byte 'n' then do
    let rest ← skipWord ['u', 'l', 'l'] input.tail
    .ok (none, rest)
  else do
    let (value, rest) ← text input
    .ok (some value, rest)

/-- A natural number below a bound. -/
def naturalBelow (bound : Nat) : Reader Nat := fun input => do
  let (b, input) ← peek input
  if b = byte '-' || isDigit b then do
    let (value, rest) ← readNumber input
    match value with
    | some n => if n < bound then .ok (n, rest) else .error .mismatch
    | none => .error .mismatch
  else
    .error (wrongType input)

/-- A truth value. -/
def boolean : Reader Bool := fun input => do
  let (b, input) ← peek input
  if b = byte 't' then do
    let rest ← skipWord ['r', 'u', 'e'] input.tail
    .ok (true, rest)
  else if b = byte 'f' then do
    let rest ← skipWord ['a', 'l', 's', 'e'] input.tail
    .ok (false, rest)
  else
    .error (wrongType input)

/-! ## Lists and tables -/

/-- Enters an array or object, which needs a level. -/
def enter {α : Type} (levels : Nat) (inside : Reader α) : Reader α := fun input =>
  if levels = 0 then .error .malformed else inside input

/-- The rest of an array after a comma or its end, `input` being after an item. -/
def nextItem (input : Bytes) : Except Fault (Option Bytes) := do
  let (b, input) ← peek input
  if b = byte ']' then
    .ok none
  else if b = byte ',' then do
    let (next, input) ← peek input.tail
    if next = byte ']' then .error .malformed else .ok (some input)
  else
    .error .malformed

/-- The items of an array from one of them on, and the text after the closing bracket. -/
def items {α : Type} (item : Reader α) : Nat → Reader (List α)
  | 0 => fun _ => .error .truncated
  | budget + 1 => fun input => do
    let (first, rest) ← item input
    match ← nextItem rest with
    | some rest => do
      let (others, rest) ← items item budget rest
      .ok (first :: others, rest)
    | none => .ok ([first], (skipSpace rest).tail)

/-- An array of items. -/
def list {α : Type} (levels : Nat) (item : Reader α) : Reader (List α) := fun input => do
  let (b, input) ← peek input
  if b = byte '[' then
    enter levels (fun input => do
      let (next, input) ← peek input.tail
      if next = byte ']' then .ok ([], input.tail) else items item input.length input) input
  else
    .error (wrongType input)

/-- The name at the front of a text, which has to be a string. -/
def name : Reader String := fun input => do
  let (b, input) ← peek input
  if b = byte '"' then readText input.tail else .error .malformed

/-- The text at the next name of an object, or none at its end, `input` being after an entry. -/
def nextEntry (input : Bytes) : Except Fault (Option Bytes) := do
  let (b, input) ← peek input
  if b = byte '\x7d' then
    .ok none
  else if b = byte ',' then do
    let (next, input) ← peek input.tail
    if next = byte '"' then .ok (some input) else .error .malformed
  else
    .error .malformed

/-- Folds the entries of an object from one of them on. `entry` reads what follows a name and
changes what was gathered so far. -/
def entries {α : Type} (entry : α → String → Reader α) : Nat → α → Reader α
  | 0, _ => fun _ => .error .truncated
  | budget + 1, gathered => fun input => do
    let (key, rest) ← name input
    let (gathered, rest) ← entry gathered key rest
    match ← nextEntry rest with
    | some rest => entries entry budget gathered rest
    | none => .ok (gathered, (skipSpace rest).tail)

/-- Folds the entries of an object after its opening bracket. -/
def object {α : Type} (entry : α → String → Reader α) (start : α) : Reader α := fun input => do
  let (next, input) ← peek input.tail
  if next = byte '\x7d' then .ok (start, input.tail) else entries entry input.length start input

/-- An object with any names: its values by name, the last one for a name that is repeated, in order
of first appearance. -/
def table {α : Type} (levels : Nat) (item : Reader α) : Reader (Table α) := fun input => do
  let (b, input) ← peek input
  if b = byte '\x7b' then
    enter levels (object (fun gathered key input => do
      let rest ← skipColon input
      let (value, rest) ← item rest
      .ok (Table.put key value gathered, rest)) []) input
  else
    .error (wrongType input)

/-! ## Records -/

/-- A field of a record: its name, and how its value is read and put into the record. -/
structure RecordField (ρ : Type) where
  name : String
  read : Reader (ρ → ρ)

/-- The field whose value is read by `reader` and put into the record by `set`. -/
def field {ρ α : Type} (name : String) (reader : Reader α) (set : α → ρ → ρ) : RecordField ρ where
  name
  read input := do
    let (value, rest) ← reader input
    .ok (set value, rest)

/-- Reads what follows a name in a record. A known field may be given once. -/
def recordEntry {ρ : Type} (fields : List (RecordField ρ)) (gathered : ρ × List String)
    (key : String) : Reader (ρ × List String) := fun input =>
  match fields.find? fun field => field.name == key with
  | some field =>
    if gathered.2.contains key then
      .error .mismatch
    else do
      let rest ← skipColon input
      let (change, rest) ← field.read rest
      .ok ((change gathered.1, key :: gathered.2), rest)
  | none => do
    let rest ← skipColon input
    let rest ← skipValue rest
    .ok (gathered, rest)

/-- The end of a record that is written as an array and whose fields have all been read. -/
def tupleEnd {ρ : Type} (gathered : ρ) : Reader ρ := fun input => do
  let (b, input) ← peek input
  if b = byte ']' then .ok (gathered, input.tail) else .error .malformed

/-- The values of a record's remaining fields, `input` being after an earlier one. -/
def tupleRest {ρ : Type} : List (RecordField ρ) → ρ → Reader ρ
  | [], gathered => tupleEnd gathered
  | field :: fields, gathered => fun input => do
    match ← nextItem input with
    | some rest => do
      let (change, rest) ← field.read rest
      tupleRest fields (change gathered) rest
    | none => .ok (gathered, (skipSpace input).tail)

/-- A record that is written as an array, after its opening bracket. -/
def tuple {ρ : Type} (fields : List (RecordField ρ)) (start : ρ) : Reader ρ := fun input => do
  let (next, input) ← peek input.tail
  match fields with
  | [] => tupleEnd start input
  | field :: fields =>
    if next = byte ']' then
      .ok (start, input.tail)
    else do
      let (change, rest) ← field.read input
      tupleRest fields (change start) rest

/-- A record with the given fields, which start from the defaults. -/
def record {ρ : Type} (levels : Nat) (fields : List (RecordField ρ)) (start : ρ) :
    Reader ρ := fun input => do
  let (b, input) ← peek input
  if b = byte '\x7b' then do
    let (gathered, rest) ← enter levels (object (recordEntry fields) (start, [])) input
    .ok (gathered.1, rest)
  else if b = byte '[' then
    enter levels (tuple fields start) input
  else
    .error (wrongType input)

/-! ## Choices by name -/

/-- One of several values by its exact name: a string, or an object of the name and `null`. -/
def choice {α : Type} (levels : Nat) (ofName? : String → Option α) : Reader α := fun input => do
  let (b, input) ← peek input
  if b = byte '"' then do
    let (key, rest) ← readText input.tail
    match ofName? key with
    | some value => .ok (value, rest)
    | none => .error .mismatch
  else if b = byte '\x7b' then
    enter levels (fun input => do
      let (key, rest) ← name input.tail
      match ofName? key with
      | none => .error .mismatch
      | some value => do
        let rest ← skipColon rest
        let (b, rest) ← peek rest
        if b = byte 'n' then do
          let rest ← skipWord ['u', 'l', 'l'] rest.tail
          let (b, rest) ← peek rest
          if b = byte '\x7d' then .ok (value, rest.tail) else .error .malformed
        else
          .error (wrongType rest)) input
  else
    .error .malformed

/-! ## Whole texts -/

/-- The value that a whole text holds. -/
def readWhole {α : Type} (reader : Reader α) (input : Bytes) : Except Fault α := do
  let outcome ← reader input
  finish outcome

end GrammarSearch.Json

namespace GrammarSearch

/-- Reads a priority from a JSON text. -/
def Priority.ofJson (text : String) : Except Json.Fault Priority :=
  Json.readWhole (Json.choice Json.maxLevels Priority.ofName?) text.toUTF8.toList

/-- Reads a handle from a JSON text. -/
def NodeId.ofJson (text : String) : Except Json.Fault NodeId :=
  (Json.readWhole (Json.naturalBelow (Nat.pow 2 32)) text.toUTF8.toList).map NodeId.mk

end GrammarSearch
