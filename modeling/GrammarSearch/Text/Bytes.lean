/-!
# Byte offsets in texts

Every position in a text is an offset in bytes of its UTF-8 form. An offset is usable when it falls
between two characters, so cutting a text at an offset may fail, and so may taking the part between
two offsets.

## Main results

* `splitAt?_eq_some_iff`: a cut succeeds exactly at the byte length of a leading part.
* `slice?_eq_some_iff`: what lies between two usable offsets, and when there is something.
-/

namespace GrammarSearch.Text

/-- The number of bytes of a text in UTF-8. -/
def byteLength : List Char → Nat
  | [] => 0
  | c :: rest => c.utf8Size + byteLength rest

@[simp] theorem byteLength_nil : byteLength [] = 0 := rfl

@[simp] theorem byteLength_cons (c : Char) (rest : List Char) :
    byteLength (c :: rest) = c.utf8Size + byteLength rest := rfl

@[simp] theorem byteLength_append (first second : List Char) :
    byteLength (first ++ second) = byteLength first + byteLength second := by
  induction first with
  | nil => simp
  | cons c rest ih => simp [ih, Nat.add_assoc]

@[simp] theorem byteLength_reverse (text : List Char) :
    byteLength text.reverse = byteLength text := by
  induction text with
  | nil => rfl
  | cons c rest ih => simp [ih, Nat.add_comm]

/-- Cuts a text at a byte offset; there is no cut past the end or inside a character. -/
def splitAt? : Nat → List Char → Option (List Char × List Char)
  | 0, text => some ([], text)
  | _ + 1, [] => none
  | offset + 1, c :: rest =>
    if c.utf8Size ≤ offset + 1 then
      (splitAt? (offset + 1 - c.utf8Size) rest).map fun (before, after) => (c :: before, after)
    else
      none

/-- The parts of a cut put together again, and the first part ends at the offset. -/
theorem append_of_splitAt? {offset : Nat} {text before after : List Char}
    (h : splitAt? offset text = some (before, after)) :
    before ++ after = text ∧ byteLength before = offset := by
  induction text generalizing offset before with
  | nil =>
    cases offset with
    | zero => simp_all [splitAt?]
    | succ offset => simp [splitAt?] at h
  | cons c rest ih =>
    cases offset with
    | zero => simp_all [splitAt?]
    | succ offset =>
      simp only [splitAt?] at h
      split at h
      · next hSize =>
        obtain ⟨⟨front, back⟩, hCut, hEq⟩ := Option.map_eq_some_iff.1 h
        obtain ⟨rfl, rfl⟩ : c :: front = before ∧ back = after := by simpa using hEq
        obtain ⟨hJoin, hLength⟩ := ih hCut
        refine ⟨by simp [hJoin], ?_⟩
        simp only [byteLength_cons, hLength]
        omega
      · simp at h

/-- A text is cut at the byte length of any leading part. -/
@[simp] theorem splitAt?_byteLength (before after : List Char) :
    splitAt? (byteLength before) (before ++ after) = some (before, after) := by
  induction before with
  | nil => simp [splitAt?]
  | cons c rest ih =>
    obtain ⟨size, hSize⟩ : ∃ size, c.utf8Size = size + 1 :=
      ⟨c.utf8Size - 1, by have := c.utf8Size_pos; omega⟩
    have hOffset : byteLength (c :: rest) = (size + byteLength rest) + 1 := by
      simp only [byteLength_cons, hSize]
      omega
    rw [hOffset, List.cons_append, splitAt?, if_pos (by omega)]
    rw [show size + byteLength rest + 1 - c.utf8Size = byteLength rest by omega, ih]
    rfl

/-- A cut succeeds exactly at the byte length of a leading part. -/
theorem splitAt?_eq_some_iff {offset : Nat} {text before after : List Char} :
    splitAt? offset text = some (before, after) ↔
      before ++ after = text ∧ byteLength before = offset := by
  constructor
  · exact append_of_splitAt?
  · rintro ⟨rfl, rfl⟩
    exact splitAt?_byteLength before after

/-- The part of a text between two byte offsets, unless they are reversed or one is unusable. -/
def slice? (text : List Char) (start stop : Nat) : Option (List Char) :=
  if start ≤ stop then
    match splitAt? start text with
    | some (_, after) => (splitAt? (stop - start) after).map (·.1)
    | none => none
  else
    none

/-- A slice is a part whose neighbours end and start at the two offsets. -/
theorem slice?_eq_some_iff {text part : List Char} {start stop : Nat} :
    slice? text start stop = some part ↔
      ∃ before after, before ++ part ++ after = text ∧ byteLength before = start ∧
        byteLength (before ++ part) = stop := by
  constructor
  · intro h
    simp only [slice?] at h
    split at h
    · next hOrder =>
      split at h
      · next before after hFirst =>
        obtain ⟨⟨inner, back⟩, hSecond, hPart⟩ := Option.map_eq_some_iff.1 h
        obtain rfl : inner = part := hPart
        obtain ⟨hText, hBefore⟩ := splitAt?_eq_some_iff.1 hFirst
        obtain ⟨hAfter, hInner⟩ := splitAt?_eq_some_iff.1 hSecond
        refine ⟨before, back, by simp [hAfter, hText], hBefore, ?_⟩
        rw [byteLength_append]
        omega
      · simp at h
    · simp at h
  · rintro ⟨before, after, rfl, rfl, rfl⟩
    simp [slice?]

end GrammarSearch.Text
