
/-!
YAML nodes. Aliases are replaced by the nodes they stand for.
-/

namespace ApiImpact.Yaml

/-- How a scalar is written. -/
inductive ScalarStyle where
  | plain
  | quoted
  | literal
  | folded
  deriving DecidableEq, Repr

/-- A piece of text with the way in which it is written and its tag, if it has one. -/
structure Scalar where
  text : String
  style : ScalarStyle := .plain
  tag : Option String := none
  deriving DecidableEq, Repr

/-- A node of a document. -/
inductive Node where
  | scalar (value : Scalar)
  | sequence (items : List Node)
  | mapping (entries : List (Node × Node))
  deriving Repr

namespace Node

/-- The node that stands where nothing is written. -/
def empty : Node := .scalar { text := "" }

instance : Inhabited Node := ⟨empty⟩

/-- The text of a scalar. -/
def text? : Node → Option String
  | scalar s => some s.text
  | _ => none

/-- The node is a plain scalar without text. -/
def isEmpty : Node → Bool
  | scalar s => s.text.isEmpty && s.style == .plain
  | _ => false

end Node

/-!
A position in YAML text and what has been read before it.
-/

/-- `c` is a space or a tab. -/
def isGap (c : Char) : Bool :=
  c == ' ' || c == '\t'

/-- `c` ends a line. -/
def isBreak (c : Char) : Bool :=
  c == '\n' || c == '\r' || c == '\u0085' || c == '\u2028' || c == '\u2029'

/-- The line break `c` as it stands in the text of a scalar. -/
def keptBreak (c : Char) : Char :=
  if c == '\u2028' || c == '\u2029' then c else '\n'

/-- The line break at the beginning of `text`, as kept, and the text behind it. A carriage return and a
line feed are one line break. -/
def takeBreak? : List Char → Option (Char × List Char)
  | '\r' :: '\n' :: rest => some ('\n', rest)
  | c :: rest => if isBreak c then some (keptBreak c, rest) else none
  | [] => none

/-- A word ends before `text`: at its end, before a blank or before a line break. -/
def endsWord : List Char → Bool
  | [] => true
  | c :: _ => isGap c || isBreak c

/-- `text` begins with the word `word`. -/
def beginsWithWord (word text : List Char) : Bool :=
  word.isPrefixOf text && endsWord (text.drop word.length)

/-- `text` begins with a marker of the beginning or the end of a document. -/
def beginsWithMarker (text : List Char) : Bool :=
  beginsWithWord ['-', '-', '-'] text || beginsWithWord ['.', '.', '.'] text

/-- `c` may stand in YAML text. -/
def isAllowed (c : Char) : Bool :=
  let n := c.toNat
  n == 0x09 || n == 0x0A || n == 0x0D || (0x20 ≤ n && n ≤ 0x7E) || n == 0x85
    || (0xA0 ≤ n && n ≤ 0xFFFD) || 0x10000 ≤ n

/-- A position in the text. -/
structure Cursor where
  /-- The text that has not been read. -/
  ahead : List Char
  column : Nat := 0
  line : Nat := 0
  /-- A key or an entry of a block collection may begin here. -/
  fresh : Bool := true
  /-- The nodes that have anchors, last first. -/
  anchors : List (String × Node) := []
  /-- What the handles of tags stand for, last first. -/
  handles : List (String × String) := [("!", "!"), ("!!", "tag:yaml.org,2002:")]

/-- A reader moves the cursor and has a result, unless the text is in error. -/
abbrev Reading := StateT Cursor Option

namespace Cursor

/-- The cursor stands at the end of the text or at a marker. -/
def isAtEnd (cursor : Cursor) : Bool :=
  cursor.ahead.isEmpty || (cursor.column == 0 && beginsWithMarker cursor.ahead)

/-- The cursor after `rest` becomes what is ahead on the same line. -/
def moveTo (cursor : Cursor) (rest : List Char) : Cursor :=
  { cursor with
    ahead := rest
    column := cursor.column + (cursor.ahead.length - rest.length) }

/-- The character `c` followed by the end of a word is next. -/
def isAtIndicator (cursor : Cursor) (c : Char) : Bool :=
  beginsWithWord [c] cursor.ahead

end Cursor

namespace Reading

/-- The next character, if there is one. -/
def peek? : Reading (Option Char) :=
  return (← get).ahead.head?

/-- Reads what `read` finds at the beginning of the text, all of it on one line. -/
def onLine {α : Type} (read : List Char → Option (α × List Char)) : Reading α := do
  let cursor ← get
  let (result, rest) ← read cursor.ahead
  set (cursor.moveTo rest)
  return result

/-- Passes over `count` characters of the line. -/
def advance (count : Nat) : Reading Unit :=
  modify fun cursor => cursor.moveTo (cursor.ahead.drop count)

/-- Sets whether a key may begin here. -/
def setFresh (fresh : Bool) : Reading Unit :=
  modify ({ · with fresh })

/-- Passes over blanks of the line. -/
def skipBlanks : Reading Unit :=
  modify fun cursor => cursor.moveTo (cursor.ahead.dropWhile isGap)

/-- The cursor behind the blanks, comments and line breaks at the beginning of `text`. A line break in a
block makes a key possible, and where a key is possible a tab is no blank. -/
def gapEnd (flow inComment : Bool) (cursor : Cursor) : List Char → Cursor
  | [] => { cursor with ahead := [] }
  | c :: rest =>
    let next := { cursor with column := cursor.column + 1 }
    if isBreak c then
      gapEnd flow false
        { cursor with column := 0, line := cursor.line + 1, fresh := cursor.fresh || !flow } rest
    else if inComment then gapEnd flow true next rest
    else if c == ' ' || (c == '\t' && (flow || !cursor.fresh)) then gapEnd flow false next rest
    else if c == '#' then gapEnd flow true next rest
    else { cursor with ahead := c :: rest }

/-- Passes over blanks, comments and line breaks. -/
def skipGap (flow : Bool) : Reading Unit :=
  modify fun cursor => gapEnd flow false cursor cursor.ahead

end Reading

/-! ## Between the words of a scalar

A scalar may run over several lines. The blanks and line breaks between its words are folded: blanks around
line breaks vanish, one line break is a space, and of several the first vanishes. -/

/-- Blanks and line breaks between two words. -/
structure Spacing where
  /-- The blanks before the first line break. -/
  blanks : List Char := []
  /-- The line breaks, in order. -/
  breaks : List Char := []

namespace Spacing

/-- The line breaks as text. -/
def foldedBreaks : List Char → List Char
  | [] => []
  | ['\n'] => [' ']
  | '\n' :: rest => rest
  | breaks => breaks

/-- The spacing as text. -/
def folded (spacing : Spacing) : List Char :=
  if spacing.breaks.isEmpty then spacing.blanks else foldedBreaks spacing.breaks

/-- Adds a blank in front. -/
def consBlank (c : Char) (spacing : Spacing) : Spacing :=
  { spacing with blanks := c :: spacing.blanks }

end Spacing

/-- The spacing at the beginning of `text` with the text and the column behind it. The column of `text` is
`column`; once a line is `broken`, a tab in a column before `floor` is an error. -/
def spacingFrom? (floor : Nat) (column : Nat) (broken : Bool) :
    List Char → Option (Spacing × List Char × Nat)
  | [] => some ({}, [], column)
  | '\r' :: '\n' :: rest => do
    let (spacing, after) ← spacingFrom? floor 0 true rest
    some ({ spacing with blanks := [], breaks := '\n' :: spacing.breaks }, after)
  | c :: rest =>
    if isBreak c then do
      let (spacing, after) ← spacingFrom? floor 0 true rest
      some ({ spacing with blanks := [], breaks := keptBreak c :: spacing.breaks }, after)
    else if isGap c then
      if broken && c == '\t' && column < floor then none
      else do
        let (spacing, after) ← spacingFrom? floor (column + 1) broken rest
        some (if broken then spacing else spacing.consBlank c, after)
    else some ({}, c :: rest, column)

/-- Reads the spacing at the cursor; no tab may stand in a column before `floor` of a new line. -/
def Reading.spacing (floor : Nat) : Reading Spacing := do
  let cursor ← get
  let (spacing, rest, column) ← spacingFrom? floor cursor.column false cursor.ahead
  set { cursor with ahead := rest, column, line := cursor.line + spacing.breaks.length }
  return spacing

end ApiImpact.Yaml
