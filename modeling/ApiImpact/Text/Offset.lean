import ApiImpact.Text.Blank

/-!
Byte offsets into text. Text is a list of characters; an offset counts the bytes of the UTF-8 form,
so it may fall inside a character, where no cut is possible.
-/

namespace ApiImpact.Text

/-- The number of bytes that `text` takes in UTF-8. -/
def byteLength : List Char → Nat
  | [] => 0
  | c :: rest => c.utf8Size + byteLength rest

@[simp] theorem byteLength_nil : byteLength [] = 0 := rfl

@[simp] theorem byteLength_cons (c : Char) (rest : List Char) :
    byteLength (c :: rest) = c.utf8Size + byteLength rest := rfl

@[simp] theorem byteLength_append (a b : List Char) :
    byteLength (a ++ b) = byteLength a + byteLength b := by
  induction a with
  | nil => simp
  | cons c a ih => simp [ih, Nat.add_assoc]

/-- What is left of `text` after its first `offset` bytes. `none` past the end and inside a character. -/
def dropBytes? : List Char → Nat → Option (List Char)
  | text, 0 => some text
  | [], _ + 1 => none
  | c :: rest, offset + 1 =>
    if c.utf8Size ≤ offset + 1 then dropBytes? rest (offset + 1 - c.utf8Size) else none

/-- The first `count` bytes of `text`. `none` past the end and inside a character. -/
def takeBytes? : List Char → Nat → Option (List Char)
  | _, 0 => some []
  | [], _ + 1 => none
  | c :: rest, count + 1 =>
    if c.utf8Size ≤ count + 1 then (takeBytes? rest (count + 1 - c.utf8Size)).map (c :: ·) else none

/-- The bytes of `text` from offset `start` up to `stop`, when both are cuts of `text` in this order. -/
def slice? (text : List Char) (start stop : Nat) : Option (List Char) :=
  if start ≤ stop then do takeBytes? (← dropBytes? text start) (stop - start) else none

/-- The byte offset of the first character satisfying `p`. -/
def findOffset? (p : Char → Bool) : List Char → Option Nat
  | [] => none
  | c :: rest => if p c then some 0 else (findOffset? p rest).map (c.utf8Size + ·)

/-!
Lines and columns of byte offsets, and the depth of braces at the start of each line.
-/

/-- A position as people read it: lines count from 1, columns are bytes and count from 0. -/
structure Position where
  line : Nat
  column : Nat
  deriving DecidableEq, Repr

/-- The position `offset` bytes after `position`, along `text`. Past the end of `text` the last line
goes on. -/
def Position.advance (position : Position) : List Char → Nat → Position
  | [], offset => { position with column := position.column + offset }
  | c :: rest, offset =>
    if offset < c.utf8Size then { position with column := position.column + offset }
    else
      let next : Position :=
        if c = '\n' then ⟨position.line + 1, 0⟩ else ⟨position.line, position.column + c.utf8Size⟩
      next.advance rest (offset - c.utf8Size)

/-- The position of `offset` in `text`. -/
def positionOf (text : List Char) (offset : Nat) : Position :=
  Position.advance ⟨1, 0⟩ text offset

/-- The 1-based line of `offset`. -/
def lineOf (text : List Char) (offset : Nat) : Nat :=
  (positionOf text offset).line

/-- The distance in bytes of `offset` from the start of its line. -/
def columnOf (text : List Char) (offset : Nat) : Nat :=
  (positionOf text offset).column

/-- How `c` moves the depth of braces. -/
def braceStep (c : Char) : Int :=
  if c = '\x7b' then 1 else if c = '\x7d' then -1 else 0

/-- The depth of braces at every line break from `depth` on. -/
def depthsAfterBreaks (depth : Int) : List Char → List Int
  | [] => []
  | c :: rest =>
    if c = '\n' then depth :: depthsAfterBreaks depth rest
    else depthsAfterBreaks (depth + braceStep c) rest

/-- The depth of braces at the start of every line. -/
def lineDepths (masked : List Char) : List Int :=
  0 :: depthsAfterBreaks 0 masked

/-- The depth of braces before the character at `offset`, by bytes; `none` past the end. -/
def depthAt? (depth : Int) : List Char → Nat → Option Int
  | [], _ => none
  | c :: rest, offset =>
    if offset < c.utf8Size then some depth
    else depthAt? (depth + braceStep c) rest (offset - c.utf8Size)

end ApiImpact.Text
