import ApiImpact.Json.Reader
import ApiImpact.Yaml.Cursor

/-!
Scalars in single or double quotes. In single quotes a doubled quote stands for one; in double quotes a
backslash begins an escape.
-/

namespace ApiImpact.Yaml

/-- The character that a backslash and `c` stand for. -/
def namedEscape? : Char → Option Char
  | '0' => some '\x00'
  | 'a' => some '\x07'
  | 'b' => some '\x08'
  | 't' | '\t' => some '\t'
  | 'n' => some '\n'
  | 'v' => some '\x0b'
  | 'f' => some '\x0c'
  | 'r' => some '\r'
  | 'e' => some '\x1b'
  | ' ' => some ' '
  | '"' => some '"'
  | '/' => some '/'
  | '\\' => some '\\'
  | '\'' => some '\''
  | 'N' => some '\u0085'
  | '_' => some '\u00a0'
  | 'L' => some '\u2028'
  | 'P' => some '\u2029'
  | _ => none

/-- The number of digits of the escapes that give the number of a character. -/
def escapeDigits? : Char → Option Nat
  | 'x' => some 2
  | 'u' => some 4
  | 'U' => some 8
  | _ => none

/-- The number that hexadecimal digits write. -/
def hexNumber? (digits : List Char) : Option Nat :=
  digits.foldlM (fun n c => (Json.hexValue? c).map (n * 16 + ·)) 0

/-- The character with the number `n`. -/
def charOfNumber? (n : Nat) : Option Char :=
  if n.isValidChar then some (.ofNat n) else none

/-- The character of the escape at the beginning of `text`, after its backslash, and the text behind
it. -/
def escape? : List Char → Option (Char × List Char)
  | [] => none
  | c :: rest =>
    match escapeDigits? c with
    | some count => do
      if rest.length < count then none
      let number ← hexNumber? (rest.take count)
      some (← charOfNumber? number, rest.drop count)
    | none => (namedEscape? c).map (·, rest)

namespace Reading

/-- Reads up to the closing quote, at most `fuel` pieces. -/
def quotedBody (quote : Char) : Nat → Reading (List Char)
  | 0 => failure
  | fuel + 1 => do
    let cursor ← get
    if cursor.isAtEnd then failure
    match cursor.ahead with
    | [] => failure
    | '\\' :: rest =>
      if quote == '\'' then
        advance 1
        return '\\' :: (← quotedBody quote fuel)
      else if (takeBreak? rest).isSome then
        advance 1
        let skipped ← spacing 0
        return skipped.breaks.drop 1 ++ (← quotedBody quote fuel)
      else
        advance 1
        let c ← onLine escape?
        return c :: (← quotedBody quote fuel)
    | c :: rest =>
      if c == quote then
        advance 1
        if quote == '\'' && rest.head? == some '\'' then
          advance 1
          return '\'' :: (← quotedBody quote fuel)
        return []
      else if isGap c || isBreak c then
        let between ← spacing 0
        return between.folded ++ (← quotedBody quote fuel)
      else
        advance 1
        return c :: (← quotedBody quote fuel)

/-- Reads a scalar in quotes. -/
def quoted (quote : Char) : Reading Scalar := do
  advance 1
  let cursor ← get
  let text ← quotedBody quote (cursor.ahead.length + 1)
  setFresh false
  return { text := .ofList text, style := .quoted }

end Reading

end ApiImpact.Yaml
