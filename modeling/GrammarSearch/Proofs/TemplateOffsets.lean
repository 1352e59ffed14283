import GrammarSearch.Json.Bytes
import GrammarSearch.Proofs.TemplateReading

/-!
# Templates resolved in place

A host that holds a template as the bytes of its UTF-8 form resolves it in place: it looks for the
next backslash from an offset, counts the bytes of digits after it, and copies what it has passed
when it puts a text in.  Two offsets run along, how far the template is copied (`copied`) and where
the search goes on (`start`); they part where a reference has no text.  Every cut is at an offset in
bytes, and the whole fails at a cut inside a character.

No cut does (`resolveInPlace_eq`), and what comes out is what the pieces give: of the template's
parts before `copied`, from there to `start` and after it, the first is in the result, the second is
still to be copied, and only the third has references to fill.

## Main results

* `nextReference_cases`: what a look for the next reference finds, against the pieces.
* `resolveInPlace_eq`, `refersInPlace_eq`: in place comes out what the pieces give.
* `resolve_fills_references`: what a template resolves to, read piece by piece.
-/

namespace GrammarSearch

namespace Text

/-- The bytes of a text in UTF-8. -/
def bytes (text : List Char) : List UInt8 :=
  text.flatMap String.utf8EncodeChar

/-- The text from a byte offset on; there is none past the end or inside a character. -/
def dropBytes? (text : List Char) (offset : Nat) : Option (List Char) :=
  (splitAt? offset text).map (·.2)

@[simp] theorem dropBytes?_byteLength (before after : List Char) :
    dropBytes? (before ++ after) (byteLength before) = some after := by
  simp [dropBytes?]

theorem slice?_append (before part after : List Char) :
    slice? (before ++ part ++ after) (byteLength before) (byteLength (before ++ part)) =
      some part :=
  slice?_eq_some_iff.2 ⟨before, after, rfl, rfl, rfl⟩

theorem bytes_append (first second : List Char) :
    bytes (first ++ second) = bytes first ++ bytes second :=
  List.flatMap_append

theorem length_bytes (text : List Char) : (bytes text).length = byteLength text := by
  induction text with
  | nil => rfl
  | cons c rest ih =>
    rw [bytes, List.flatMap_cons, List.length_append, String.length_utf8EncodeChar, ← bytes, ih,
      byteLength_cons]

theorem drop_bytes (before after : List Char) :
    (bytes (before ++ after)).drop (byteLength before) = bytes after := by
  rw [bytes_append, ← length_bytes, List.drop_left]

/-! ## Digits as bytes -/

theorem isDigit_ofNat_iff {n : Nat} (h : n < 256) :
    Json.isDigit (UInt8.ofNat n) = true ↔ 48 ≤ n ∧ n ≤ 57 := by
  have hToNat : (UInt8.ofNat n).toNat = n := UInt8.toNat_ofNat_of_lt h
  rw [Json.isDigit, Bool.and_eq_true, decide_eq_true_eq, decide_eq_true_eq, UInt8.le_iff_toNat_le,
    UInt8.le_iff_toNat_le, hToNat]
  rfl

theorem isDigit_iff {c : Char} : c.isDigit = true ↔ 48 ≤ c.val.toNat ∧ c.val.toNat ≤ 57 := by
  rw [Char.isDigit, Bool.and_eq_true, decide_eq_true_eq, decide_eq_true_eq, ge_iff_le,
    UInt32.le_iff_toNat_le, UInt32.le_iff_toNat_le]
  rfl

/-- A digit is the one byte that it is, and the bytes of every other character begin with none. -/
theorem exists_utf8EncodeChar (c : Char) :
    ∃ first more, String.utf8EncodeChar c = first :: more ∧
      (Json.isDigit first = true ↔ c.isDigit = true) ∧ (c.isDigit = true → more = []) := by
  have hValid : c.val.toNat < 0x110000 := by
    rcases c.valid with hLow | ⟨-, hHigh⟩
    · omega
    · exact hHigh
  rw [isDigit_iff]
  unfold String.utf8EncodeChar
  dsimp only
  generalize c.val.toNat = value at *
  split
  · exact ⟨_, _, rfl, isDigit_ofNat_iff (by omega), fun _ => rfl⟩
  · split
    · refine ⟨_, _, rfl, ?_, fun hDigit => by omega⟩
      rw [isDigit_ofNat_iff (by omega)]
      omega
    · split
      · refine ⟨_, _, rfl, ?_, fun hDigit => by omega⟩
        rw [isDigit_ofNat_iff (by omega)]
        omega
      · refine ⟨_, _, rfl, ?_, fun hDigit => by omega⟩
        rw [isDigit_ofNat_iff (by omega)]
        omega

theorem byteLength_of_digits {digits : List Char} (h : digits.all Char.isDigit = true) :
    byteLength digits = digits.length := by
  induction digits with
  | nil => rfl
  | cons c digits ih =>
    rw [List.all_cons, Bool.and_eq_true] at h
    obtain ⟨first, more, hBytes, -, hAlone⟩ := exists_utf8EncodeChar c
    have hSize := String.length_utf8EncodeChar c
    rw [hBytes, hAlone h.1, List.length_singleton] at hSize
    rw [byteLength_cons, ih h.2, List.length_cons, ← hSize, Nat.add_comm]

/-- The bytes of digits at the start of a text are as many as the digits. -/
theorem length_takeWhile_bytes {digits rest : List Char} (h : digits.all Char.isDigit = true)
    (hRest : Pattern.StartsWithoutDigit rest) :
    ((bytes (digits ++ rest)).takeWhile Json.isDigit).length = digits.length := by
  induction digits with
  | nil =>
    cases rest with
    | nil => rfl
    | cons c rest =>
      obtain ⟨first, more, hBytes, hDigit, -⟩ := exists_utf8EncodeChar c
      have hFirst : ¬ Json.isDigit first = true := fun hSame => hRest c rfl (hDigit.1 hSame)
      rw [List.nil_append, bytes, List.flatMap_cons, hBytes, List.cons_append,
        List.takeWhile_cons_of_neg hFirst]
      rfl
  | cons c digits ih =>
    rw [List.all_cons, Bool.and_eq_true] at h
    obtain ⟨first, more, hBytes, hDigit, hAlone⟩ := exists_utf8EncodeChar c
    rw [List.cons_append, bytes, List.flatMap_cons, hBytes, hAlone h.1, List.singleton_append,
      List.takeWhile_cons_of_pos (hDigit.2 h.1), List.length_cons, List.length_cons, ← bytes,
      ih h.2]

end Text

namespace Pattern

open TemplatePiece

/-! ## In place -/

/-- A reference at some bytes of a template, and the group it names if a machine word can. -/
structure FoundReference where
  span : Span
  group? : Option Nat

/-- The next reference from an offset on, in so many steps from backslash to backslash. -/
def nextReference (template : List Char) :
    (steps start : Nat) → Option (Option FoundReference)
  | 0, _ => none
  | steps + 1, start => do
    let rest ← Text.dropBytes? template start
    if '\\' ∈ rest then
      let slash := start + Text.byteLength (rest.takeWhile (· ≠ '\\'))
      let digits := ((Text.bytes template).drop (slash + 1)).takeWhile Json.isDigit
      let stop := slash + 1 + digits.length
      if slash + 1 < stop then
        let number ← Text.slice? template (slash + 1) stop
        return some ⟨⟨slash, stop⟩, Text.index? number⟩
      else
        nextReference template steps (slash + 1)
    else
      return none

/-- As many steps as a template can need. -/
def stepsFor (template : List Char) : Nat :=
  template.length + 1

/-- The result so far, and what the references from an offset on make of the rest of a template, of
which everything before `copied` is in the result. -/
def resolveFrom (template : List Char) (hit : Match) (text : List Char) :
    (steps copied start : Nat) → (result : List Char) → Option (List Char)
  | 0, _, _, _ => none
  | steps + 1, copied, start, result => do
    match ← nextReference template (stepsFor template) start with
    | none =>
      let rest ← Text.dropBytes? template copied
      return result ++ rest
    | some found =>
      match found.group?.bind fun group => hit.text? group text with
      | none => resolveFrom template hit text steps copied found.span.stop result
      | some captured =>
        let passed ← Text.slice? template copied found.span.start
        resolveFrom template hit text steps found.span.stop found.span.stop
          (result ++ passed ++ quote captured)

/-- A template resolved in place. -/
def resolveInPlace (template : String) (source : Option Line) (hit : Match) : Option String :=
  match source with
  | none => some template
  | some line =>
    if hit.found then
      (resolveFrom template.toList hit line.chars (stepsFor template.toList) 0 0 []).map
        String.ofList
    else
      some template

/-- Whether a look for the first reference finds one. -/
def refersInPlace (template : String) : Option Bool :=
  (nextReference template.toList (stepsFor template.toList) 0).map Option.isSome

/-! ## Against the pieces -/

theorem takeWhile_append_cons_of_notMem {plain : List Char} (h : '\\' ∉ plain) (rest : List Char) :
    (plain ++ '\\' :: rest).takeWhile (· ≠ '\\') = plain := by
  have hPlain : ∀ c ∈ plain, decide (c ≠ '\\') = true := by
    rintro c hMem
    rw [decide_eq_true_eq]
    rintro rfl
    exact h hMem
  rw [List.takeWhile_append_of_pos hPlain, List.takeWhile_cons_of_neg (by simp), List.append_nil]

/-- One step of the look, to the next backslash: it ends at the digits after it, and goes on behind
it where there are none. -/
theorem nextReference_succ {plain digits after : List Char} (before : List Char)
    (hPlain : '\\' ∉ plain) (hDigits : digits.all Char.isDigit = true)
    (hAfter : StartsWithoutDigit after) (steps : Nat) :
    nextReference (before ++ plain ++ ['\\'] ++ (digits ++ after)) (steps + 1)
        (Text.byteLength before) =
      if digits = [] then
        nextReference (before ++ plain ++ ['\\'] ++ (digits ++ after)) steps
          (Text.byteLength (before ++ plain ++ ['\\']))
      else
        some (some ⟨⟨Text.byteLength (before ++ plain),
          Text.byteLength (before ++ plain ++ ['\\'] ++ digits)⟩, Text.index? digits⟩) := by
  have hRest : Text.dropBytes? (before ++ plain ++ ['\\'] ++ (digits ++ after))
      (Text.byteLength before) = some (plain ++ '\\' :: (digits ++ after)) := by
    rw [List.append_assoc, List.append_assoc, Text.dropBytes?_byteLength]
    rfl
  have hSlash : '\\' ∈ plain ++ '\\' :: (digits ++ after) := by simp
  have hStart : Text.byteLength before + Text.byteLength plain =
      Text.byteLength (before ++ plain) :=
    (Text.byteLength_append before plain).symm
  have hBehind : Text.byteLength (before ++ plain) + 1 =
      Text.byteLength (before ++ plain ++ ['\\']) := by
    rw [Text.byteLength_append (before ++ plain)]
    rfl
  have hStop : Text.byteLength (before ++ plain ++ ['\\']) + digits.length =
      Text.byteLength (before ++ plain ++ ['\\'] ++ digits) := by
    rw [Text.byteLength_append _ digits, Text.byteLength_of_digits hDigits]
  rw [nextReference, hRest, Option.bind_eq_bind, Option.bind_some, if_pos hSlash]
  dsimp only
  rw [takeWhile_append_cons_of_notMem hPlain, hStart, hBehind, Text.drop_bytes,
    Text.length_takeWhile_bytes hDigits hAfter, hStop]
  by_cases hNone : digits = []
  · subst hNone
    rw [List.append_nil, if_neg (Nat.lt_irrefl _), if_pos rfl]
  · have hSome : 0 < digits.length := List.length_pos_iff.2 hNone
    rw [if_pos (by omega), if_neg hNone, ← List.append_assoc _ digits after, Text.slice?_append]
    rfl

/-- What a look for the next reference from an offset on finds: nothing where the rest of the
template has no reference, or else the first one. -/
theorem nextReference_cases {steps : Nat} (before rest : List Char) (hSteps : rest.length < steps) :
    (nextReference (before ++ rest) steps (Text.byteLength before) = some none ∧
      scan rest = rest.map verbatim) ∨
    ∃ plain digits after, rest = plain ++ '\\' :: (digits ++ after) ∧
      scan rest = plain.map verbatim ++ reference digits :: scan after ∧
      nextReference (before ++ rest) steps (Text.byteLength before) =
        some (some ⟨⟨Text.byteLength (before ++ plain),
          Text.byteLength (before ++ plain ++ '\\' :: digits)⟩, Text.index? digits⟩) := by
  induction steps generalizing before rest with
  | zero => exact absurd hSteps (Nat.not_lt_zero _)
  | succ steps ih =>
    by_cases hSlash : '\\' ∈ rest
    · obtain ⟨plain, more, rfl, hPlain⟩ := List.eq_append_cons_of_mem hSlash
      obtain ⟨digits, after, rfl, hDigits, hAfter⟩ := exists_digits more
      have hStep := nextReference_succ before hPlain hDigits hAfter steps
      have hText : before ++ (plain ++ '\\' :: (digits ++ after)) =
          before ++ plain ++ ['\\'] ++ (digits ++ after) := by
        simp
      rw [hText, hStep]
      by_cases hNone : digits = []
      · -- A backslash alone is one more character that is passed.
        subst hNone
        rw [if_pos rfl, List.nil_append]
        have hScan : scan (plain ++ '\\' :: after) =
            (plain ++ ['\\']).map verbatim ++ scan after := by
          rw [scan_append_of_notMem hPlain, scan_cons fun _ => hAfter]
          simp
        simp only [List.nil_append, List.length_append, List.length_cons] at hSteps
        rw [hScan]
        rcases ih (before ++ plain ++ ['\\']) after (by omega) with
          ⟨hFound, hVerbatim⟩ | ⟨passed, digits, later, rfl, hPieces, hFound⟩
        · exact .inl ⟨hFound, by rw [hVerbatim]; simp⟩
        · refine .inr ⟨plain ++ '\\' :: passed, digits, later, by simp, ?_, ?_⟩
          · rw [hPieces]
            simp
          · rw [hFound]
            simp
      · rw [if_neg hNone]
        refine .inr ⟨plain, digits, after, rfl, ?_, by simp⟩
        rw [scan_append_of_notMem hPlain, scan_reference_append hNone hDigits hAfter]
    · left
      have hScan := scan_append_of_notMem hSlash []
      rw [List.append_nil] at hScan
      rw [nextReference, Text.dropBytes?_byteLength, Option.bind_eq_bind, Option.bind_some,
        if_neg hSlash, hScan]
      exact ⟨rfl, List.append_nil _⟩

/-- Copied is what comes before `pending`, so the result gets `pending` and what fills the rest. -/
theorem resolveFrom_eq (hit : Match) (text : List Char) {steps : Nat}
    (before pending rest result : List Char) (hSteps : rest.length < steps) :
    resolveFrom (before ++ pending ++ rest) hit text steps (Text.byteLength before)
        (Text.byteLength (before ++ pending)) result =
      some (result ++ pending ++ (scan rest).flatMap (fill hit text)) := by
  induction steps generalizing before pending rest result with
  | zero => exact absurd hSteps (Nat.not_lt_zero _)
  | succ steps ih =>
    have hMany : rest.length < stepsFor (before ++ pending ++ rest) := by
      rw [stepsFor, List.length_append]
      omega
    rw [resolveFrom]
    rcases nextReference_cases (before ++ pending) rest hMany with
      ⟨hFound, hScan⟩ | ⟨plain, digits, after, rfl, hScan, hFound⟩
    · rw [hFound, List.append_assoc before, Option.bind_eq_bind, Option.bind_some]
      dsimp only
      have hCopied : (rest.map verbatim).flatMap (fill hit text) = rest := by
        rw [List.flatMap_map]
        exact List.flatMap_singleton' rest
      rw [Text.dropBytes?_byteLength, Option.bind_eq_bind, Option.bind_some, hScan, hCopied,
        List.append_assoc]
      rfl
    · have hFewer : after.length < steps := by
        simp only [List.length_append, List.length_cons] at hSteps
        omega
      have hPassed : (plain.map verbatim).flatMap (fill hit text) = plain := by
        rw [List.flatMap_map]
        exact List.flatMap_singleton' plain
      rw [hFound, Option.bind_eq_bind, Option.bind_some, hScan, List.flatMap_append,
        List.flatMap_cons, hPassed, fill]
      dsimp only
      cases (Text.index? digits).bind fun group => hit.text? group text with
      | none =>
        -- The reference stays: the search goes on behind it, but nothing is copied yet.
        have hNext := ih before (pending ++ plain ++ '\\' :: digits) after result hFewer
        have hText : before ++ (pending ++ plain ++ '\\' :: digits) ++ after =
            before ++ pending ++ (plain ++ '\\' :: (digits ++ after)) := by
          simp
        have hAt : before ++ (pending ++ plain ++ '\\' :: digits) =
            before ++ pending ++ plain ++ '\\' :: digits := by
          simp
        rw [hText, hAt] at hNext
        dsimp only
        rw [hNext]
        simp
      | some captured =>
        -- All that was passed is copied, and both offsets are behind the reference.
        have hText : before ++ pending ++ (plain ++ '\\' :: (digits ++ after)) =
            before ++ (pending ++ plain) ++ ('\\' :: (digits ++ after)) := by
          simp
        have hCut := Text.slice?_append before (pending ++ plain) ('\\' :: (digits ++ after))
        have hNext := ih (before ++ (pending ++ plain) ++ '\\' :: digits) [] after
          (result ++ (pending ++ plain) ++ quote captured) hFewer
        have hSame : before ++ (pending ++ plain) ++ '\\' :: digits ++ [] ++ after =
            before ++ (pending ++ plain) ++ ('\\' :: (digits ++ after)) := by
          simp
        rw [hSame, List.append_nil] at hNext
        dsimp only
        rw [hText, List.append_assoc before pending plain, hCut, Option.bind_eq_bind,
          Option.bind_some, hNext]
        simp

/-- In place comes out what the pieces give, so no cut is inside a character. -/
theorem resolveInPlace_eq (template : String) (source : Option Line) (hit : Match) :
    resolveInPlace template source hit = some (resolve template source hit) := by
  unfold resolveInPlace resolve
  cases source with
  | none => rfl
  | some line =>
    dsimp only
    split
    · have hAll := resolveFrom_eq hit line.chars [] [] template.toList []
        (Nat.lt_succ_self template.toList.length)
      exact congrArg (Option.map String.ofList) hAll
    · rfl

theorem refersInPlace_eq (template : String) :
    refersInPlace template = some (hasReferences template) := by
  rw [refersInPlace, hasReferences]
  rcases nextReference_cases [] template.toList (Nat.lt_succ_self template.toList.length) with
    ⟨hFound, hScan⟩ | ⟨plain, digits, after, -, hScan, hFound⟩
  · have hNone : (template.toList.map verbatim).any isReference = false := by
      rw [List.any_map]
      exact List.any_eq_false.2 fun c _ => by simp [isReference]
    rw [hScan, hNone]
    exact congrArg (Option.map Option.isSome) hFound
  · have hSome : (plain.map verbatim ++ reference digits :: scan after).any isReference = true := by
      simp [isReference]
    rw [hScan, hSome]
    exact congrArg (Option.map Option.isSome) hFound

/-- A template is cut into pieces in just one way.  With a line and a match that was found, it
resolves to what its pieces stand for, one after another, and to itself otherwise; it has references
just if one of its pieces is one, and resolves to itself in any case if it has none.  In place the
same comes out, with every cut between two characters. -/
theorem resolve_fills_references (template : String) (source : Option Line) (hit : Match) :
    ∃ pieces, (∀ others, Reads template.toList others ↔ others = pieces) ∧
      (∀ line, source = some line → hit.found = true →
        ∃ filled, (∀ others, List.Forall₂ (Stands hit line.chars) pieces others ↔ others = filled) ∧
          (resolve template source hit).toList = filled.flatten) ∧
      (source = none ∨ hit.found = false → resolve template source hit = template) ∧
      (hasReferences template = true ↔ ∃ digits, .reference digits ∈ pieces) ∧
      (hasReferences template = false → resolve template source hit = template) ∧
      resolveInPlace template source hit = some (resolve template source hit) ∧
      refersInPlace template = some (hasReferences template) := by
  refine ⟨scan template.toList, fun _ => reads_iff, ?_, ?_, hasReferences_iff,
    fun hNone => resolve_of_not_hasReferences hNone source hit,
    resolveInPlace_eq template source hit, refersInPlace_eq template⟩
  · rintro line rfl hFound
    refine ⟨_, fun _ => stands_scan_iff, ?_⟩
    rw [resolve, if_pos hFound, String.toList_ofList, List.flatMap_def]
  · rintro (rfl | hNot)
    · rfl
    · cases source with
      | none => rfl
      | some line =>
        rw [resolve, if_neg]
        rw [hNot]
        exact Bool.false_ne_true

/-- A backslash before a reference, one that no number fits, one to a group that took no part of the
text, and one beyond letters of two bytes, whose text looks like a reference again. -/
example :
    resolve "\\\\1é\\99999999999999999999\\3\\02ü\\" (some ⟨0, "é\\1"⟩)
        ⟨[⟨0, 4⟩, ⟨0, 2⟩, ⟨2, 4⟩, ⟨1, 2⟩]⟩ =
      "\\éé\\99999999999999999999\\3\\\\1ü\\" := by decide

end Pattern

end GrammarSearch
