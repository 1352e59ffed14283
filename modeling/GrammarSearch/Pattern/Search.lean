import GrammarSearch.Pattern.Basic
import GrammarSearch.Pattern.Lead
import GrammarSearch.Pattern.Matcher
import GrammarSearch.Pattern.Reader
import GrammarSearch.Pattern.Spelling

/-!
# The standard dialect

`Dialect.standard` reads the part of the Oniguruma syntax below, and finds what a backtracking
search finds for it.

* Outside brackets: literals, `.`, `^` and `$` for lines, `|`, groups, `(?:`, `(?>` and `(?#`,
  looking ahead and behind with `(?=`, `(?!`, `(?<=` and `(?<!`, the options `i` and `m` for a group
  or up to its end, and references such as `\1`.
* Quantifiers: `*`, `+`, `?`, `{n}`, `{n,}`, `{,m}` and `{n,m}`, also reluctant and possessive ones.
* Escapes: `\t`, `\n`, `\r`, `\f`, `\v`, `\a` and `\e`, octal codes, `\w`, `\d`, `\s` and `\h`
  with their complements, `\A`, `\z`, `\Z`, `\b`, `\B` and `\G`.
* In brackets: ranges, `^`, sets inside of sets, `&&`, and the escapes of characters and kinds.

The rest of that syntax is not part of it, and is not read as what it means there. Named groups, the
option `x`, `(?~` and conditions do not compile. Any other escape stands for the character after the
backslash, so `\x41` is `x41` and `\p{L}` is `p{L}`, and `\u`, `\K`, `\R`, `\X`, `\g` and `\k` are
letters; `[[:alpha:]]` is a set inside of a set. A host with such patterns brings another dialect.

## Places

A search tries places of a text from the given offset on, up to the end of the text, and takes the
first one where the pattern matches. The text before the offset stays visible to conditions on a
place and to looking behind.

Usually all places are tried. A pattern that leads with dots is tried at fewer: if they stop at line
feeds, once a line, and if they do not, only where the search begins and one byte further, or where
the best clue allows it.

## Main results

* `Place.mem_onward_iff`: the places from one on are those that some of the text lies in front of.
* `Reach.mem_of_mem_pick`: a search tries no others.
* `Program.le_start_of_find`: no match starts before the search.
-/

namespace GrammarSearch.Pattern

/-! ## Guides -/

/-- What guides a search. -/
inductive Guide where
  /-- A text. -/
  | needle (needle : Needle)
  /-- One of several bytes. -/
  | first (first : FirstBytes)
deriving DecidableEq, Repr, Inhabited

/-- How far after the start of a match the guide is found. -/
def Guide.distance : Guide → Extent
  | needle n => n.distance
  | first f => f.distance

/-- Whether the guide is found at the start of a text. -/
def Guide.startsHere (after : List Char) : Guide → Bool
  | needle n => n.chars.isPrefixOf after
  | first f => after.head?.any fun c => f.bytes.contains (leadByte c)

/-- The best guide of a lead. -/
def Lead.guide? (lead : Lead) : Option Guide :=
  let needle := lead.edge.better lead.inner
  if needle.chars != [] && !lead.first.isBetterThan needle then some (.needle needle)
  else if lead.first.bytes != [] then some (.first lead.first)
  else none

/-- Which places a search tries. -/
inductive Reach where
  /-- All of them. -/
  | all
  /-- All of them, if the guide is found at all. -/
  | guided (guide : Guide)
  /-- The first one, and those after a line feed, if the guide is found at all. -/
  | lines (guide : Guide)
  /-- The first one, and one that is one byte further. -/
  | here
  /-- Those from the first one on from which the guide is found at its distance. -/
  | near (guide : Guide)
deriving DecidableEq, Repr, Inhabited

/-- Which places a search for a pattern tries. -/
def Lead.reach (lead : Lead) : Reach :=
  let marked := lead.starts.contains
  let anchored := lead.ends.contains .textEnd || lead.ends.contains .lastLineEnd
  if marked .textDots && !marked .lookBehind && !marked .textStart && !marked .searchStart &&
      !anchored then
    match lead.guide? with
    | some guide => if guide.distance.most.isSome then .near guide else .here
    | none => .here
  else
    match lead.guide? with
    | some guide =>
      if guide.distance.most.isSome then .all
      else if marked .lineDots && !marked .lookBehind && !lead.ends.contains .lookAheadNot then
        .lines guide
      else .guided guide
    | none => .all

/-! ## Places -/

/-- A place in a text. -/
structure Place where
  /-- The characters before the place, nearest first. -/
  before : List Char
  after : List Char
  offset : Nat

namespace Place

/-- The place and all after it. -/
def onward (before : List Char) : (after : List Char) → (offset : Nat) → List Place
  | [], offset => [⟨before, [], offset⟩]
  | c :: rest, offset =>
    ⟨before, c :: rest, offset⟩ :: onward (c :: before) rest (offset + c.utf8Size)

/-- The places from one on are those that some of the text lies in front of. -/
theorem mem_onward_iff {before after : List Char} {offset : Nat} {place : Place} :
    place ∈ onward before after offset ↔
      ∃ passed, after = passed ++ place.after ∧ place.before = passed.reverse ++ before ∧
        place.offset = offset + Text.byteLength passed := by
  induction after generalizing before offset with
  | nil =>
    rw [onward, List.mem_singleton]
    constructor
    · rintro rfl
      exact ⟨[], rfl, rfl, rfl⟩
    · obtain ⟨placeBefore, placeAfter, placeOffset⟩ := place
      rintro ⟨passed, hAfter, rfl, rfl⟩
      obtain ⟨rfl, rfl⟩ := List.append_eq_nil_iff.1 hAfter.symm
      rfl
  | cons c rest ih =>
    rw [onward, List.mem_cons, ih]
    constructor
    · rintro (rfl | ⟨passed, rfl, hBefore, hOffset⟩)
      · exact ⟨[], rfl, rfl, rfl⟩
      · refine ⟨c :: passed, rfl, ?_, ?_⟩
        · simp [hBefore]
        · rw [hOffset, Text.byteLength_cons]
          omega
    · obtain ⟨placeBefore, placeAfter, placeOffset⟩ := place
      rintro ⟨passed, hAfter, rfl, rfl⟩
      cases passed with
      | nil =>
        left
        obtain rfl : c :: rest = placeAfter := hAfter
        rfl
      | cons d passed =>
        right
        obtain ⟨rfl, hRest⟩ := List.cons.inj hAfter
        refine ⟨passed, hRest, ?_, ?_⟩
        · simp
        · show offset + Text.byteLength (c :: passed) = offset + c.utf8Size + Text.byteLength passed
          rw [Text.byteLength_cons, Nat.add_assoc]

/-- Whether a line feed stands right before the place. -/
def startsLine (place : Place) : Bool :=
  place.before.head? == some '\n'

end Place

namespace Reach

/-- Whether the guide is found in the text from one of the places on. -/
def finds (guide : Guide) (places : List Place) : Bool :=
  places.any fun place => guide.startsHere place.after

/-- Those of the places from the first one on that are tried. -/
def pick : Reach → List Place → List Place
  | _, [] => []
  | all, places => places
  | guided guide, places => if finds guide places then places else []
  | lines guide, first :: rest =>
    if rest.isEmpty then
      [first]
    else if finds guide (first :: rest) then
      first :: rest.filter fun place => place.startsLine && !place.after.isEmpty
    else
      []
  | here, first :: rest => first :: rest.filter (·.offset == first.offset + 1)
  | near guide, first :: rest =>
    if rest.isEmpty then
      [first]
    else
      let least := first.offset + guide.distance.least
      match (first :: rest).find? fun place =>
          decide (least ≤ place.offset) && guide.startsHere place.after with
      | some found =>
        if guide.distance.most.all fun most => decide (found.offset ≤ first.offset + most) then
          (first :: rest).takeWhile fun place => place.offset + guide.distance.least ≤ found.offset
        else
          []
      | none => []

/-- Only places that are given are tried. -/
theorem mem_of_mem_pick {reach : Reach} {places : List Place} {place : Place}
    (h : place ∈ reach.pick places) : place ∈ places := by
  cases places with
  | nil => cases reach <;> simp [pick] at h
  | cons first rest =>
    cases reach with
    | all => exact h
    | guided guide =>
      simp only [pick] at h
      split at h
      · exact h
      · simp at h
    | lines guide =>
      simp only [pick] at h
      split at h
      · simp_all
      · split at h
        · rcases List.mem_cons.1 h with rfl | h
          · exact List.mem_cons_self
          · exact List.mem_cons_of_mem _ (List.mem_filter.1 h).1
        · simp at h
    | here =>
      rcases List.mem_cons.1 h with rfl | h
      · exact List.mem_cons_self
      · exact List.mem_cons_of_mem _ (List.mem_filter.1 h).1
    | near guide =>
      simp only [pick] at h
      split at h
      · simp_all
      · split at h
        · split at h
          · exact List.takeWhile_sublist _ |>.subset h
          · simp at h
        · simp at h

end Reach

/-! ## Programs -/

/-- A pattern ready to be searched for. -/
structure Program where
  plan : Plan
  reach : Reach
  /-- The number of groups whose spans are kept, the whole match apart. -/
  groupCount : Nat
deriving DecidableEq, Repr, Inhabited

/-- The number of groups that tokens open. -/
def groupCount (tokens : List Token) : Nat :=
  tokens.foldl Token.openedAfter 0

/-- Makes an expression ready to be searched for. -/
def Program.ofExpr (expr : Expr) (groupCount : Nat) : Program :=
  let spelled := expr.spellOut false
  let facts := GroupFacts.ofExpr spelled
  let settled := spelled.settle facts
  ⟨settled.plan facts false, (settled.lead facts .zero).reach, groupCount⟩

/-- Reads a pattern. -/
def compile (pattern : List Char) : Except Fault Program := do
  let tokens := Token.scan pattern
  let expr ← assemble { kind := .whole } [] tokens
  if expr.references.all fun index => decide (index ≤ groupCount tokens) then
    .ok (.ofExpr expr (groupCount tokens))
  else
    .error .missingGroup

namespace Program

/-- What a program finds that starts at a place. -/
def findAt (program : Program) (scene : Scene) (place : Place) : Option Found :=
  let cursor : Cursor :=
    { before := place.before
      after := place.after
      offset := place.offset
      groups := .replicate program.groupCount none
      entrances := .replicate program.groupCount 0
      entered := [] }
  match program.plan.run scene .ok cursor with
  | .ok stop => some ⟨⟨place.offset, stop.offset⟩, stop.groups⟩
  | .error _ => none

/-- What a program finds at the first place where it finds something. -/
def find (program : Program) : Finder := fun before after =>
  let text := before ++ after
  let offset := Text.byteLength before
  let places := program.reach.pick (Place.onward before.reverse after offset)
  places.findSome? (program.findAt ⟨text, offset, Text.byteLength text⟩)

private theorem start_of_findAt {program : Program} {scene : Scene} {place : Place} {found : Found}
    (h : program.findAt scene place = some found) : found.whole.start = place.offset := by
  simp only [findAt] at h
  split at h
  · obtain rfl := Option.some.inj h
    rfl
  · contradiction

/-- No match starts before the search. -/
theorem le_start_of_find {program : Program} {before after : List Char} {found : Found}
    (h : program.find before after = some found) :
    Text.byteLength before ≤ found.whole.start := by
  obtain ⟨place, hPlace, hFound⟩ := List.exists_of_findSome?_eq_some h
  obtain ⟨_, -, -, hOffset⟩ := Place.mem_onward_iff.1 (Reach.mem_of_mem_pick hPlace)
  rw [start_of_findAt hFound, hOffset]
  exact Nat.le_add_right _ _

end Program

/-- The dialect that engines search in unless they are given another one: the part of the Oniguruma
syntax that is listed at the top of this file. -/
def Dialect.standard : Dialect where
  compile source :=
    match Pattern.compile source.toList with
    | .ok program => .ok program.find
    | .error fault => .error ("Oniguruma error: " ++ fault.message)
  le_start := by
    intro source find before after found hCompile hFind
    split at hCompile
    · obtain rfl := Except.ok.inj hCompile
      exact Program.le_start_of_find hFind
    · contradiction

/-- The first match in a line at or after an offset, in the standard dialect. -/
def search (pattern : Pattern) (line : Line) (offset : Nat) : Except Failure Match :=
  Dialect.standard.search pattern line offset

end GrammarSearch.Pattern
