import ApiImpact.Text.Bracket
import ApiImpact.Text.Offset
import ApiImpact.Text.Mask

/-!
A script as the extraction reads it: where its lines break, and its two masks, byte for byte aligned.
Reading at an offset inside a character is an error, which ends the extraction.
-/

namespace ApiImpact.Script

open Text

/-- The error of a cut at an offset that falls inside a character. -/
structure InsideCharacter where
  offset : Nat
  deriving DecidableEq, Repr

/-- The lines of a script and its masks. -/
structure Source where
  /-- The line and column of every byte offset. -/
  position : Nat → Position
  /-- The script without comments. -/
  text : List Char
  /-- The script without comments and contents of literals. -/
  code : List Char

namespace Source

/-- The views of `source`. -/
def of (source : List Char) : Source :=
  { position := positionOf source, text := withoutComments source, code := codeOnly source }

/-- The 1-based line of `offset`. -/
def lineOf (s : Source) (offset : Nat) : Nat :=
  (s.position offset).line

/-- The distance in bytes of `offset` from the start of its line. -/
def columnOf (s : Source) (offset : Nat) : Nat :=
  (s.position offset).column

/-- The code from `offset` on; nothing past the end. -/
def codeFrom (s : Source) (offset : Nat) : Except InsideCharacter (List Char) :=
  if byteLength s.code ≤ offset then .ok []
  else match dropBytes? s.code offset with
  | some rest => .ok rest
  | none => .error ⟨offset⟩

/-- The code between two offsets. -/
def codeBetween (s : Source) (start stop : Nat) : Except InsideCharacter (List Char) :=
  match slice? s.code start stop with
  | some part => .ok part
  | none => .error ⟨stop⟩

/-- The text between two offsets in one line; empty when the offsets are no cuts of it. -/
def signature (s : Source) (start stop : Nat) : String :=
  .ofList (collapse ((slice? s.text start stop).getD []))

/-- The offset of the first character at or after `offset` that is not blank. -/
def skipBlanks (s : Source) (offset : Nat) : Except InsideCharacter Nat := do
  return offset + byteLength ((← s.codeFrom offset).takeWhile isBlank)

/-- The contents of the literal whose opening quote is the character at `offset`. -/
def literalAt? (s : Source) (offset : Nat) : Option String := do
  match ← dropBytes? s.code offset with
  | quote :: rest =>
    if quote.utf8Size = 1 then
      let width ← findOffset? (· == quote) rest
      some (.ofList (← slice? s.text (offset + 1) (offset + 1 + width)))
    else none
  | [] => none

/-- The identifier that `code` begins with. A hash sign may lead it, a digit may not. -/
def leadingIdentifier? (code : List Char) : Option (List Char) :=
  match code with
  | [] => none
  | first :: rest =>
    if (isIdentifierChar first && !first.isDigit) || first == '#' then
      some (first :: rest.takeWhile isIdentifierChar)
    else none

/-- The identifier at `offset`. -/
def identifierAt? (s : Source) (offset : Nat) : Except InsideCharacter (Option (List Char)) := do
  return leadingIdentifier? (← s.codeFrom offset)

/-- The code at `offset` begins with `word`. -/
def hasAt (s : Source) (offset : Nat) (word : String) : Except InsideCharacter Bool := do
  return word.toList.isPrefixOf (← s.codeFrom offset)

/-- The line of `offset` begins outside all braces. -/
def isTopLevel (s : Source) (offset : Nat) : Bool :=
  ((lineDepths s.code)[s.lineOf offset - 1]?).getD 0 == 0

/-- As many braces open as close. -/
def isBalanced (s : Source) : Bool :=
  s.code.count '\x7b' == s.code.count '\x7d'

end Source

end ApiImpact.Script
