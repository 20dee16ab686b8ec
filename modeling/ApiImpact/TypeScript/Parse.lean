import ApiImpact.Text.Offset
import ApiImpact.TypeScript.Grammar.Statements

/-!
From text to syntax tree. The rules of the grammar are tied together by a bound on how deep they nest,
which no text exceeds: every few goals a character is read.
-/

namespace ApiImpact.TypeScript

open Reading

namespace Grammar

/-- The rule of every goal, in terms of the goals it is made of. -/
def rule (parts : Parts) : Parts
  | .statement => statement parts
  | .block => block parts
  | .expression allowIn => expression parts allowIn
  | .assignment allowIn => assignment parts allowIn true
  | .consequent => assignment parts true false
  | .unary => unary parts
  | .access => access parts
  | .pattern => pattern parts
  | .type => type parts
  | .typeWithoutCondition => typeWithoutCondition parts
  | .typeOperator => typeOperator parts
  | .jsx => elementHere parts

/-- All rules, applied at most `depth` deep. -/
def parts : Nat → Parts
  | 0 => fun _ => failure
  | depth + 1 => rule (parts depth)

/-- The line that tells a shell how to run a script. -/
def hashBang : Reading Tree := do
  let text ← ahead
  check ("#!".toList.isPrefixOf text)
  take (.node .hashBang) (text.takeWhile (!isLineBreak ·)).length

/-- The statements of a program. -/
def program (parts : Parts) : Reading (List Tree) := do
  let head ← optionally hashBang
  return head ++ (← many (return [← parts .statement]))

/-- A depth that no tree of `text` reaches. -/
def depthBound (text : List Char) : Nat :=
  8 * text.length + 64

end Grammar

/-- The length of the token at the beginning of a text: a word, a literal or a sign. -/
def tokenLength (text : List Char) : Nat :=
  let word := wordLength text
  if word ≠ 0 then word
  else ((stringLength? text <|> numberLength? text).getD (signAt text).length).max 1

/-- `text` with spaces for its first `length` characters, byte for byte. -/
def blankOut (length : Nat) (text : List Char) : List Char :=
  (text.take length).flatMap (fun c => List.replicate c.utf8Size ' ') ++ text.drop length

/-- `text` with the token at `offset` blanked out; `none` at the end of the text. -/
def withoutToken? (text : List Char) (offset : Nat) : Option (List Char) := do
  let rest ← Text.dropBytes? text offset
  if rest.isEmpty then none
  else some (text.take (text.length - rest.length) ++ blankOut (tokenLength rest) rest)

/-- What was read of a text. -/
structure Parsed where
  statements : List Tree
  /-- Nothing was left over. -/
  complete : Bool
  /-- The furthest offset at which reading failed. -/
  stuckAt : Nat

/-- Reads the statements of `text` up to the first one that cannot be read. -/
def parseAsFar (text : List Char) (elements : Bool) : Parsed :=
  match Grammar.program (Grammar.parts (Grammar.depthBound text)) (.start text elements) with
  | .ok statements rest => ⟨statements, rest.ahead.isEmpty, rest.furthest⟩
  | .error _ rest => ⟨[], false, rest.furthest⟩

/-- The statements of `text` without the tokens at which reading gets stuck, at most `limit` of them. -/
def parseAround (text : List Char) (elements : Bool) : Nat → Option (List Tree)
  | 0 => none
  | limit + 1 => do
    let parsed := parseAsFar text elements
    if parsed.complete then some parsed.statements
    else parseAround (← withoutToken? text parsed.stuckAt) elements limit

/-- The number of tokens that reading passes over. -/
def toleratedTokens : Nat := 16

/-- Reads `text` as a program. With `elements` an angle bracket may open an element. In a text with
errors the tokens that do not fit are passed over; if that does not help, the statements before the
first error are read. -/
def parse (text : List Char) (elements : Bool) : Parsed :=
  let parsed := parseAsFar text elements
  if parsed.complete then parsed
  else { parsed with
    statements := (parseAround text elements toleratedTokens).getD parsed.statements }

end ApiImpact.TypeScript
