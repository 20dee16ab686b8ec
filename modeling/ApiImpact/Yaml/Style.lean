import ApiImpact.Yaml.Plain
import ApiImpact.Yaml.Value

/-!
The choice of the form in which a text is written as a YAML scalar, so that it is read as text again: without
quotes where that is possible, as a block if it has several lines, in single quotes else, and in double
quotes if some character has to be escaped.
-/

namespace ApiImpact.Yaml

/-- The forms in which a text is written. -/
inductive TextForm where
  | plain
  | singleQuoted
  | doubleQuoted
  | literal
  deriving DecidableEq, Repr

/-- `c` is written as it is; others are written as escapes in double quotes. -/
def isPrinted (c : Char) : Bool :=
  let n := c.toNat
  n == 0x0A || (0x20 ≤ n && n ≤ 0x7E) || (0xA0 ≤ n && n ≤ 0xFFFD && n != 0xFEFF) || 0x10000 ≤ n

/-- Without quotes the text would mean something else, or could be taken for a number. -/
def isAmbiguous (text : String) : Bool :=
  let characters := text.toList
  text.isEmpty || nullWords.contains text || truthWords.contains text
    || isInteger characters || isFloat characters || hasIdleZero characters

/-- A colon before a blank, or a number sign behind one; `afterGap` tells whether a blank or the beginning
precedes. -/
def holdsIndicator (afterGap : Bool) : List Char → Bool
  | [] => false
  | c :: rest =>
    (c == ':' && endsWord rest) || (c == '#' && afterGap)
      || holdsIndicator (isGap c || isBreak c) rest

/-- The text begins as no plain text may. -/
def beginsAsIndicator (text : List Char) : Bool :=
  ['-', '-', '-'].isPrefixOf text || ['.', '.', '.'].isPrefixOf text || !beginsPlain false text

/-- `text` has a blank next to a line break: before it where `before` is set, or else behind it. -/
def hasBlankAtBreak (before : Bool) : List Char → Bool
  | a :: b :: rest =>
    (if before then a == ' ' && isBreak b else isBreak a && b == ' ')
      || hasBlankAtBreak before (b :: rest)
  | _ => false

/-- The text may stand without quotes. -/
def mayBePlain (text : List Char) : Bool :=
  let outer (c : Char) : Bool := c == ' ' || isBreak c
  text.all (fun c => isPrinted c && !isBreak c) && !(text.head?.any outer)
    && !(text.getLast?.any outer) && !beginsAsIndicator text && !holdsIndicator true text

/-- The text may stand in single quotes. -/
def maySingleQuote (text : List Char) : Bool :=
  text.all isPrinted && !hasBlankAtBreak true text && !hasBlankAtBreak false text

/-- The text may stand as a literal block. -/
def mayBeLiteral (text : List Char) : Bool :=
  text.all isPrinted && !hasBlankAtBreak true text && text.getLast? != some ' '

/-- The form of a text. -/
def TextForm.of (text : String) : TextForm :=
  let characters := text.toList
  let quoted := if maySingleQuote characters then singleQuoted else doubleQuoted
  if characters.contains '\n' then
    if mayBeLiteral characters then literal else doubleQuoted
  else if isAmbiguous text then quoted
  else if mayBePlain characters then plain
  else quoted

end ApiImpact.Yaml
