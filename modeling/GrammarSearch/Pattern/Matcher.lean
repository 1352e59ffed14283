import GrammarSearch.Match
import GrammarSearch.Pattern.Plan

/-!
# Matching at a place

A plan is carried out by trying its ways in order of preference: it is given what has to match after
it, and takes the first of its own ways after which that succeeds. Groups that a way set are set
back when the way is given up, except where a group that is not kept was entered last.

Nothing is taken from beyond the limit of a scene. While something is looked for behind a place that
is the place itself, and else the end of the text; conditions on a place see the text beyond it.
-/

namespace GrammarSearch.Pattern

/-- What a match is tried on. -/
structure Scene where
  text : List Char
  /-- The offset at which the search began. -/
  searchStart : Nat
  /-- The offset up to which text can be taken. -/
  limit : Nat

/-- A place in the text with the groups set so far. -/
structure Cursor where
  /-- The characters before the place, nearest first. -/
  before : List Char
  after : List Char
  /-- The place as an offset. -/
  offset : Nat
  /-- The spans of the groups, by number less one. -/
  groups : List (Option Span)
  /-- Where the groups that are not kept were entered last, by number less one. -/
  entrances : List Nat
  /-- The kept groups entered so far with their spans before, latest first. -/
  entered : List (Nat × Option Span)
deriving Repr, Inhabited

namespace Cursor

/-- The span of a group that is set. -/
def group? (cursor : Cursor) (index : Nat) : Option Span :=
  (cursor.groups[index - 1]?).join

/-- The place with a group set or taken back. -/
def setGroup (cursor : Cursor) (index : Nat) (span : Option Span) : Cursor :=
  { cursor with groups := cursor.groups.set (index - 1) span }

/-- The place inside a kept group, which is taken back until the group ends. -/
def enterKept (cursor : Cursor) (index : Nat) : Cursor :=
  { cursor.setGroup index none with entered := (index, cursor.group? index) :: cursor.entered }

/-- The place inside a group that is not kept. -/
def enter (cursor : Cursor) (index : Nat) : Cursor :=
  { cursor with entrances := cursor.entrances.set (index - 1) cursor.offset }

/-- The place after a group that is not kept. -/
def leave (cursor : Cursor) (index : Nat) : Cursor :=
  cursor.setGroup index (some ⟨cursor.entrances[index - 1]?.getD 0, cursor.offset⟩)

/-- The place with the groups as they are at another place. -/
def withGroupsOf (cursor other : Cursor) : Cursor :=
  { cursor with
    groups := other.groups
    entrances := other.entrances
    entered := other.entered }

/-- The place after the next character, if that is one that is asked for. -/
def step? (cursor : Cursor) (accepts : Char → Bool) : Option Cursor :=
  match cursor.after with
  | [] => none
  | c :: rest =>
    if accepts c then
      some { cursor with
        before := c :: cursor.before
        after := rest
        offset := cursor.offset + c.utf8Size }
    else
      none

/-- The place after all the characters asked for. -/
def stepAll? (cursor : Cursor) : List (Char → Bool) → Option Cursor
  | [] => some cursor
  | accepts :: rest =>
    match cursor.step? accepts with
    | some next => next.stepAll? rest
    | none => none

/-- The places before this one, nearest first and itself included. -/
def backwards (cursor : Cursor) : List Cursor :=
  go cursor cursor.before
where
  /-- The place and those before it, whose characters are `before`. -/
  go (place : Cursor) : List Char → List Cursor
    | [] => [place]
    | c :: rest =>
      place :: go { place with
        before := rest
        after := c :: place.after
        offset := place.offset - c.utf8Size } rest

/-- The places so many characters back, nearest first. -/
def placesBack (cursor : Cursor) (chars : Extent) : List Cursor :=
  let places := cursor.backwards.drop chars.least
  match chars.most with
  | some most => places.take (most - chars.least + 1)
  | none => places

end Cursor

namespace Anchor

/-- Whether the character next to a place is like those of words. -/
def besideWord : List Char → Bool
  | [] => false
  | c :: _ => Text.isWordLike c

/-- Whether the condition holds at a place. At the start of the text, the character after the place
counts only if it can be taken. -/
def holds (scene : Scene) (cursor : Cursor) : Anchor → Bool
  | textStart => cursor.before.isEmpty
  | textEnd => cursor.after.isEmpty
  | lastLineEnd => cursor.after.isEmpty || cursor.after == ['\n']
  | lineStart =>
    cursor.before.isEmpty || (cursor.before.head? == some '\n' && !cursor.after.isEmpty)
  | lineEnd => cursor.after.isEmpty || cursor.after.head? == some '\n'
  | wordEdge => besideWord cursor.before != wordAfter
  | wordInside => besideWord cursor.before == wordAfter
  | searchStart => cursor.offset == scene.searchStart
where
  /-- Whether a word can go on after the place. -/
  wordAfter : Bool :=
    besideWord cursor.after && !(cursor.before.isEmpty && scene.limit ≤ cursor.offset)

end Anchor

/-! ## Ways to go on -/

/-- The outcome of going on from a place: where the match ends, or where the groups that are not
kept were entered last when there was no way on. -/
abbrev Attempt := Except (List Nat) Cursor

/-- A way to go on from a place. -/
abbrev Continuation := Cursor → Attempt

/-- Goes through the ways of a plan in order and takes the first from which the continuation
succeeds. -/
abbrev Matcher := Continuation → Continuation

namespace Matcher

/-- There is no way on from here. -/
def stuck : Continuation := fun cursor => .error cursor.entrances

/-- The first of two ways that succeeds. -/
def orElse (first second : Continuation) : Continuation := fun cursor =>
  match first cursor with
  | .ok found => .ok found
  | .error entrances => second { cursor with entrances }

/-- Goes on from the place after a step, if there is one. -/
def onward (step : Option Cursor) (next : Continuation) : Continuation := fun cursor =>
  match step with
  | some place => next place
  | none => stuck cursor

/-- The first of several places from which there is a way, where the groups that are not kept were
entered last being known. -/
def firstFrom (way : Continuation) : List Cursor → Continuation
  | [] => stuck
  | place :: places => fun cursor =>
    orElse (fun cursor => way { place with entrances := cursor.entrances }) (firstFrom way places)
      cursor

/-! ## Loops -/

/-- What a repetition means for the loop. -/
inductive Progress where
  | goOn
  | leave
  | stuck
deriving DecidableEq

/-- What a group that a repetition entered means for the loop if the repetition took no text: one
that had not been set, or to some text, makes it count, and one that was set elsewhere rules it
out. -/
def progressOfGroup (place : Cursor) (before : Option Span) : Progress :=
  match before with
  | none => .goOn
  | some span =>
    if span.start ≠ span.stop then .goOn
    else if span.stop ≠ place.offset then .stuck
    else .leave

/-- What a repetition from one place to another means for the loop. -/
def progress (watched : Option (List Nat)) (start place : Cursor) : Progress :=
  match watched with
  | none => .goOn
  | some groups =>
    if place.offset ≠ start.offset then
      .goOn
    else
      let entered := place.entered.take (place.entered.length - start.entered.length)
      let outcomes := (entered.filter fun entry => groups.contains entry.1).map fun entry =>
        progressOfGroup place entry.2
      if outcomes.contains .goOn then .goOn
      else if outcomes.contains .stuck then .stuck
      else .leave

/-- The repetitions of a loop after the first `done` ones. `budget` repetitions are possible. -/
def repetitions (body : Matcher) (count : Repeat) (watched : Option (List Nat)) :
    (budget done : Nat) → Matcher
  | 0, _, _ => stuck
  | budget + 1, done, next => fun start =>
    let more : Continuation := body fun place =>
      match progress watched start place with
      | .goOn => repetitions body count watched budget (done + 1) next place
      | .leave => next place
      | .stuck => stuck place
    if done < count.least then more start
    else if count.most = some done then next start
    else if count.greedy then orElse more next start
    else orElse next more start

/-- How many repetitions of a loop are possible from a place: those asked for, and while there is
text, no more than take text or set a group anew. -/
def budget (count : Repeat) (cursor : Cursor) : Nat :=
  match count.most with
  | some most => most + 1
  | none => count.least + (cursor.after.length + 1) * (cursor.groups.length + 1) + 1

/-! ## Looking -/

/-- Goes on from a place after looking for something there: if it was found, with the groups that
were set, or if it was not. -/
def afterLooking (negated : Bool) (outcome : Attempt) (next : Continuation) : Continuation :=
  fun cursor =>
    match outcome, negated with
    | .ok found, false => next (cursor.withGroupsOf found)
    | .ok found, true => .error found.entrances
    | .error entrances, false => .error entrances
    | .error entrances, true => next { cursor with entrances }

/-- Ends a match at an offset only. -/
def endAt (offset : Nat) : Continuation := fun place =>
  if place.offset = offset then .ok place else stuck place

end Matcher

/-! ## Plans -/

namespace Scene

/-- The place after the next character, if that can be taken and is one that is asked for. -/
def step? (scene : Scene) (accepts : Char → Bool) (cursor : Cursor) : Option Cursor :=
  if cursor.offset < scene.limit then cursor.step? accepts else none

/-- The place after a text. -/
def stepText? (scene : Scene) (text : List Char) (cursor : Cursor) : Option Cursor :=
  (cursor.stepAll? (text.map fun c d => c == d)).filter fun place => place.offset ≤ scene.limit

/-- The place after the text of a group, up to case if that is ignored. There has to be as much text
as the group has. -/
def stepGroup? (scene : Scene) (index : Nat) (ignoreCase : Bool) (cursor : Cursor) :
    Option Cursor :=
  ((cursor.group? index).bind fun span => Text.slice? scene.text span.start span.stop).bind
    fun text =>
      if ignoreCase then
        if cursor.offset + Text.byteLength text ≤ scene.limit then
          cursor.stepAll? (text.map fun c d => Text.fold c == Text.fold d)
        else
          none
      else
        scene.stepText? text cursor

end Scene

open Matcher in
/-- The ways of a plan. -/
def Plan.run : Plan → Scene → Matcher
  | empty, _, next => next
  | text chars, scene, next => fun cursor => onward (scene.stepText? chars cursor) next cursor
  | member cls, scene, next => fun cursor => onward (scene.step? cls.holds cursor) next cursor
  | word negated, scene, next => fun cursor =>
    onward (scene.step? (fun c => Text.isWordLike c != negated) cursor) next cursor
  | any lineFeed, scene, next => fun cursor =>
    onward (scene.step? (fun c => lineFeed || c != '\n') cursor) next cursor
  | anchor place, scene, next => fun cursor =>
    if place.holds scene cursor then next cursor else stuck cursor
  | seq first second, scene, next => first.run scene (second.run scene next)
  | choice first second, scene, next => orElse (first.run scene next) (second.run scene next)
  | group index true body, scene, next => fun cursor =>
    body.run scene
      (fun place => next (place.setGroup index (some ⟨cursor.offset, place.offset⟩)))
      (cursor.enterKept index)
  | group index false body, scene, next => fun cursor =>
    body.run scene (fun place => next (place.leave index)) (cursor.enter index)
  | reference index ignoreCase, scene, next => fun cursor =>
    onward (scene.stepGroup? index ignoreCase cursor) next cursor
  | loop count watched body, scene, next => fun cursor =>
    repetitions (body.run scene) count watched (budget count cursor) 0 next cursor
  | atomic body, scene, next => fun cursor => (body.run scene .ok cursor).bind next
  | ahead negated body, scene, next => fun cursor =>
    afterLooking negated (body.run scene .ok cursor) next cursor
  | back negated chars body, scene, next => fun cursor =>
    afterLooking negated
      (firstFrom (body.run scene .ok) (cursor.placesBack (.exactly chars)) cursor) next cursor
  | behind negated chars body, scene, next => fun cursor =>
    let way := body.run { scene with limit := cursor.offset } (endAt cursor.offset)
    afterLooking negated (firstFrom way (cursor.placesBack chars) cursor) next cursor
  | never, _, _ => stuck

end GrammarSearch.Pattern
