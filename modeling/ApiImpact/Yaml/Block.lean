import ApiImpact.Yaml.Cursor

/-!
Block scalars: the lines below a `|` or `>` that are indented at least as far as the first of them, or as
far as the header says. In a folded one a line break between two lines is a space, unless one of the
lines begins with a blank.
-/

namespace ApiImpact.Yaml

/-- What happens to the line breaks at the end of a block scalar: the last one is kept, none is, or all
are. -/
inductive Chomping where
  | clip
  | strip
  | keep
  deriving DecidableEq

/-- The signs behind `|` or `>`. -/
structure BlockHeader where
  chomping : Chomping := .clip
  /-- How much deeper than its parent the scalar is indented, if that is given. -/
  indentation : Option Nat := none

/-- The chomping that `c` asks for. -/
def chompingOf? : Char → Option Chomping
  | '-' => some .strip
  | '+' => some .keep
  | _ => none

/-- The indentation that `c` gives; zero is none. -/
def indentationOf? (c : Char) : Option Nat :=
  if '1' ≤ c ∧ c ≤ '9' then some (c.toNat - 48) else none

/-- The header at the beginning of `text`: at most one sign of either kind, in any order. -/
def blockHeader : List Char → BlockHeader × List Char
  | [] => ({}, [])
  | c :: rest =>
    match chompingOf? c, indentationOf? c with
    | some chomping, _ =>
      match rest.head?.bind indentationOf? with
      | some n => ({ chomping, indentation := some n }, rest.drop 1)
      | none => ({ chomping }, rest)
    | none, some n =>
      match rest.head?.bind chompingOf? with
      | some chomping => ({ chomping, indentation := some n }, rest.drop 1)
      | none => ({ indentation := some n }, rest)
    | none, none => ({}, c :: rest)

/-- Line breaks and the indentation around them, at the beginning of a line. -/
structure BlockGap where
  breaks : List Char := []
  /-- The greatest column that a line reached. -/
  widest : Nat := 0
  rest : List Char
  column : Nat

/-- Passes over spaces up to the column `indent`, or over all if it is not known, and over line breaks. A
tab in their place is an error. -/
def blockGap? (indent : Option Nat) (column : Nat) : List Char → Option BlockGap
  | [] => some { widest := column, rest := [], column }
  | '\r' :: '\n' :: rest => do
    let gap ← blockGap? indent 0 rest
    some { gap with breaks := '\n' :: gap.breaks, widest := max column gap.widest }
  | c :: rest =>
    let outside := indent.all fun n => column < n
    if c == ' ' && outside then blockGap? indent (column + 1) rest
    else if c == '\t' && outside then none
    else if isBreak c then do
      let gap ← blockGap? indent 0 rest
      some { gap with breaks := keptBreak c :: gap.breaks, widest := max column gap.widest }
    else some { widest := column, rest := c :: rest, column }

/-- The text of the lines of a block scalar as far as it is known: what is certain, the break of the last
line, the breaks of the empty lines after it, and whether it began with a blank. -/
structure BlockText where
  certain : List Char := []
  lastBreak : List Char := []
  emptyLines : List Char := []
  beganBlank : Bool := false

namespace BlockText

/-- The break between the last line and one that begins with a blank or not. -/
def joint (text : BlockText) (folded beginsBlank : Bool) : List Char :=
  if folded && text.lastBreak == ['\n'] && !text.beganBlank && !beginsBlank then
    if text.emptyLines.isEmpty then [' '] else text.emptyLines
  else text.lastBreak ++ text.emptyLines

/-- Adds a line. -/
def addLine (text : BlockText) (folded : Bool) (line : List Char) : BlockText :=
  let beginsBlank := line.head?.any isGap
  { certain := text.certain ++ text.joint folded beginsBlank ++ line
    beganBlank := beginsBlank }

/-- The text with the breaks at its end that are kept. -/
def chomped (text : BlockText) : Chomping → List Char
  | .strip => text.certain
  | .clip => text.certain ++ text.lastBreak
  | .keep => text.certain ++ text.lastBreak ++ text.emptyLines

end BlockText

namespace Reading

/-- Reads the end of a line: blanks and a comment, and the line break unless the text ends. -/
def lineEnd : Reading Unit := do
  skipBlanks
  let cursor ← get
  let rest := if cursor.ahead.head? == some '#' then
    cursor.ahead.dropWhile (!isBreak ·) else cursor.ahead
  match takeBreak? rest with
  | some (_, rest) => set { cursor with ahead := rest, column := 0, line := cursor.line + 1 }
  | none => if rest.isEmpty then set (cursor.moveTo rest) else failure

/-- Reads line breaks and indentation up to the column `indent`. -/
def blockBreaks (indent : Option Nat) : Reading BlockGap := do
  let cursor ← get
  let gap ← blockGap? indent cursor.column cursor.ahead
  set { cursor with
    ahead := gap.rest, column := gap.column, line := cursor.line + gap.breaks.length }
  return gap

/-- Reads the lines that are indented up to the column `indent`, at most `fuel` of them. -/
def blockLines (folded : Bool) (indent : Nat) : Nat → BlockText → Reading BlockText
  | 0, text => return text
  | fuel + 1, text => do
    let cursor ← get
    if cursor.column != indent || cursor.ahead.isEmpty then return text
    let line := cursor.ahead.takeWhile (!isBreak ·)
    let text := text.addLine folded line
    match takeBreak? (cursor.ahead.drop line.length) with
    | some (ending, rest) =>
      set { cursor with ahead := rest, column := 0, line := cursor.line + 1 }
      let gap ← blockBreaks (some indent)
      blockLines folded indent fuel { text with lastBreak := [ending], emptyLines := gap.breaks }
    | none =>
      set (cursor.moveTo [])
      return text

/-- Reads a block scalar; the lines of its parent's content begin at `floor`. -/
def block (floor : Nat) : Reading Scalar := do
  let folded := (← peek?) == some '>'
  advance 1
  let header ← onLine fun text => some (blockHeader text)
  lineEnd
  let given := header.indentation.map fun n => floor - 1 + n
  let gap ← blockBreaks given
  let indent := given.getD (max gap.widest (max floor 1))
  let fuel := (← get).ahead.length + 1
  let text ← blockLines folded indent fuel { emptyLines := gap.breaks }
  setFresh true
  return {
    text := .ofList (text.chomped header.chomping)
    style := if folded then .folded else .literal }

end Reading

end ApiImpact.Yaml
