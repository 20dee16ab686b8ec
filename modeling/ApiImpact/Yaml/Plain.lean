import ApiImpact.Yaml.Cursor

/-!
Scalars without quotes.
-/

namespace ApiImpact.Yaml

/-- The signs that separate the parts of flow collections. -/
def flowSigns : List Char := [',', '[', ']', '\x7b', '\x7d']

/-- The signs with which no plain scalar begins. -/
def leadingSigns : List Char :=
  flowSigns ++ ['#', '&', '*', '!', '|', '>', '\'', '"', '%', '@', '\x60']

/-- A plain scalar may begin with `text`. A dash does not begin one before a blank, and a question mark or
a colon only begins one in a block and before a word. -/
def beginsPlain (flow : Bool) : List Char → Bool
  | [] => false
  | '-' :: rest => !endsWord rest
  | '?' :: rest | ':' :: rest => !flow && !endsWord rest
  | c :: _ => !isGap c && !isBreak c && !leadingSigns.contains c

/-- The word of a plain scalar at the beginning of `text`, and the text behind it. A colon before a blank
ends the word, and so does a sign of flow collections within one; there a colon directly before such a
sign is an error. -/
def plainWord? (flow : Bool) : List Char → Option (List Char × List Char)
  | [] => some ([], [])
  | c :: rest =>
    let sign (c : Char) : Bool := flow && flowSigns.contains c
    if isGap c || isBreak c || sign c || (c == ':' && endsWord rest) then some ([], c :: rest)
    else if c == ':' && (rest.head?.any fun d => sign d || (flow && d == '?')) then none
    else do
      let (word, after) ← plainWord? flow rest
      some (c :: word, after)

namespace Reading

/-- Reads words up to the end of the scalar, at most `fuel` of them; `spacing` is what precedes the first.
The scalar ends at a comment, at a marker and, in a block, at a line that begins before `floor`. -/
def plainWords (flow : Bool) (floor : Nat) : Nat → Spacing → Reading (List Char)
  | 0, _ => failure
  | fuel + 1, before => do
    let cursor ← get
    let fresh := !before.breaks.isEmpty
    let below := !flow && fresh && cursor.column < floor
    if below || cursor.isAtEnd || cursor.ahead.head? == some '#' then
      setFresh fresh
      return []
    let word ← onLine (plainWord? flow)
    if word.isEmpty then
      setFresh fresh
      return []
    let after ← spacing floor
    let rest ← plainWords flow floor fuel after
    return before.folded ++ word ++ rest

/-- Reads a plain scalar; its lines after the first begin at `floor` or behind it. -/
def plain (flow : Bool) (floor : Nat) : Reading Scalar := do
  let cursor ← get
  let text ← plainWords flow floor (cursor.ahead.length + 1) {}
  return { text := .ofList text }

end Reading

end ApiImpact.Yaml
