import ApiImpact.Text.Offset

/-!
Patterns over text, enough for the declarations and statements this library looks for: character
classes with runs, alternatives, anchors and numbered groups. A search finds the leftmost match;
among matches at one place, earlier alternatives and longer greedy runs are preferred.
-/

namespace ApiImpact.Text

/-- A pattern. Repetition is over a class of characters only. -/
inductive Pattern where
  /-- One character of the class. -/
  | one (p : Char → Bool)
  /-- As many characters of the class as possible. -/
  | most (p : Char → Bool)
  /-- As few characters of the class as possible. -/
  | fewest (p : Char → Bool)
  /-- The first pattern, then the second. -/
  | andThen (first second : Pattern)
  /-- The first pattern or else the second. -/
  | orElse (first second : Pattern)
  /-- The pattern, or else nothing. -/
  | optional (inner : Pattern)
  /-- The numbered group of what the pattern matches. -/
  | group (index : Nat) (inner : Pattern)
  /-- Nothing. -/
  | empty
  /-- Between a word character and a character or end that is none. -/
  | wordEdge
  /-- At the beginning of the text. -/
  | textStart
  /-- At the end of the text. -/
  | textEnd
  /-- At the beginning of a line. -/
  | lineStart
  /-- At the end of a line. -/
  | lineEnd

instance : Append Pattern := ⟨.andThen⟩

/-- A stretch of text given by two byte offsets. -/
structure Span where
  start : Nat
  stop : Nat
  deriving DecidableEq, Repr

/-- A place in a text: the character behind it, its byte offset and the text ahead. -/
structure Place where
  behind : Option Char := none
  offset : Nat := 0
  ahead : List Char

/-- The place one character further. -/
def Place.step (place : Place) (c : Char) (rest : List Char) : Place :=
  { behind := some c, offset := place.offset + c.utf8Size, ahead := rest }

/-- What a match has recorded: the span of every group, latest first. -/
abbrev Groups := List (Nat × Span)

namespace Pattern

/-- The character `c`. -/
def char (c : Char) : Pattern := one (· == c)

/-- The literal text. -/
def literal (text : String) : Pattern :=
  text.toList.foldr (fun c rest => char c ++ rest) empty

/-- At least one character of the class, as many as possible. -/
def most1 (p : Char → Bool) : Pattern := one p ++ most p

/-- At least one character of the class, as few as possible. -/
def fewest1 (p : Char → Bool) : Pattern := one p ++ fewest p

/-- The first of `patterns` that leads to a match. -/
def firstOf : List Pattern → Pattern
  | [] => one fun _ => false
  | [last] => last
  | first :: rest => orElse first (firstOf rest)

/-- Runs a greedy run of `p`: on to the longest run first. -/
def tryMost (p : Char → Bool) (next : Place → Option α) (place : Place) : List Char → Option α
  | [] => next place
  | c :: rest =>
    if p c then (tryMost p next (place.step c rest) rest).or (next place) else next place

/-- Runs a lazy run of `p`: the shortest run first. -/
def tryFewest (p : Char → Bool) (next : Place → Option α) (place : Place) : List Char → Option α
  | [] => next place
  | c :: rest =>
    (next place).or (if p c then tryFewest p next (place.step c rest) rest else none)

/-- Exactly one of the characters on both sides of `place` is a word character. -/
def atWordEdge (place : Place) : Bool :=
  (place.behind.any isWordChar) != (place.ahead.head?.any isWordChar)

/-- Matches the pattern at `place` and goes on with `next`, trying the ways to match in order of
preference until one lets `next` succeed. -/
def tryAt : Pattern → Groups → (Groups → Place → Option α) → Place → Option α
  | one p, groups, next, place =>
    match place.ahead with
    | [] => none
    | c :: rest => if p c then next groups (place.step c rest) else none
  | most p, groups, next, place => tryMost p (next groups) place place.ahead
  | fewest p, groups, next, place => tryFewest p (next groups) place place.ahead
  | andThen first second, groups, next, place =>
    tryAt first groups (fun groups place => tryAt second groups next place) place
  | orElse first second, groups, next, place =>
    (tryAt first groups next place).or (tryAt second groups next place)
  | optional inner, groups, next, place => (tryAt inner groups next place).or (next groups place)
  | group index inner, groups, next, place =>
    tryAt inner groups
      (fun groups after => next ((index, ⟨place.offset, after.offset⟩) :: groups) after) place
  | empty, groups, next, place => next groups place
  | wordEdge, groups, next, place => if atWordEdge place then next groups place else none
  | textStart, groups, next, place => if place.behind.isNone then next groups place else none
  | textEnd, groups, next, place => if place.ahead.isEmpty then next groups place else none
  | lineStart, groups, next, place =>
    if place.behind.all (· == '\n') then next groups place else none
  | lineEnd, groups, next, place =>
    if place.ahead.head?.all (· == '\n') then next groups place else none

end Pattern

/-- One match of a pattern. -/
structure Match where
  /-- The whole match. -/
  span : Span
  groups : Groups

/-- The span of a group that took part in the match. -/
def Match.group? (m : Match) (index : Nat) : Option Span :=
  m.groups.lookup index

namespace Pattern

/-- The match at `place` and the place after it. -/
def matchAt? (pattern : Pattern) (place : Place) : Option (Match × Place) :=
  pattern.tryAt [] (fun groups after => some (⟨⟨place.offset, after.offset⟩, groups⟩, after)) place

/-- All matches from `place` on, left to right and without overlap. -/
def findAllFrom (pattern : Pattern) (place : Place) : List Match :=
  match pattern.matchAt? place with
  | some (m, after) =>
    if after.ahead.length < place.ahead.length then m :: findAllFrom pattern after
    else
      match _h : place.ahead with
      | [] => [m]
      | c :: rest => m :: findAllFrom pattern (place.step c rest)
  | none =>
    match _h : place.ahead with
    | [] => []
    | c :: rest => findAllFrom pattern (place.step c rest)
termination_by place.ahead.length
decreasing_by all_goals first | assumption | simp [Place.step, *]

/-- All matches in `text`, left to right and without overlap. -/
def findAll (pattern : Pattern) (text : List Char) : List Match :=
  pattern.findAllFrom { ahead := text }

/-- The pattern matches somewhere from `place` on. -/
def occursFrom (pattern : Pattern) (place : Place) : List Char → Bool
  | [] => (pattern.matchAt? place).isSome
  | c :: rest => (pattern.matchAt? place).isSome || occursFrom pattern (place.step c rest) rest

/-- The pattern matches somewhere in `text`. -/
def occursIn (pattern : Pattern) (text : List Char) : Bool :=
  pattern.occursFrom { ahead := text } text

end Pattern

end ApiImpact.Text
