import ApiImpact.Text.Offset

/-!
Matching brackets and splitting at separators outside brackets. Both expect masked text, where no
bracket stands inside a literal.
-/

namespace ApiImpact.Text

/-- The bracket that closes `c`, for the three bracket pairs. -/
def closerOf? : Char → Option Char
  | '(' => some ')'
  | '{' => some '}'
  | '[' => some ']'
  | _ => none

/-- The offset at which `depth` open brackets are closed, for a text that begins at offset `start`.
Only `opener` and `closer` count. -/
def closeFrom (opener closer : Char) : Nat → Nat → List Char → Option Nat
  | _, _, [] => none
  | depth, start, c :: rest =>
    if c = opener then closeFrom opener closer (depth + 1) (start + c.utf8Size) rest
    else if c = closer then
      if depth ≤ 1 then some start else closeFrom opener closer (depth - 1) (start + c.utf8Size) rest
    else closeFrom opener closer depth (start + c.utf8Size) rest

/-- The offset of the bracket that closes the one at offset `start`. `none` when no bracket opens
there or none closes it. -/
def matchingClose? (text : List Char) (start : Nat) : Option Nat :=
  match dropBytes? text start with
  | some (c :: rest) => do closeFrom c (← closerOf? c) 1 (start + c.utf8Size) rest
  | _ => none

/-- How `c` moves the bracket depth after `previous`: an angle bracket that ends an arrow does not. -/
def depthStep (previous c : Char) : Int :=
  if c = '(' ∨ c = '\x7b' ∨ c = '[' ∨ c = '<' then 1
  else if c = '>' ∧ previous = '=' then 0
  else if c = ')' ∨ c = '\x7d' ∨ c = ']' ∨ c = '>' then -1
  else 0

/-- The pieces of a text cut at the characters `separator` of depth zero, each with its offset. The
piece being read began at `start` and holds `piece`, latest character first; the scan stands at
`here`. -/
def piecesFrom (separator : Char) (depth : Int) (previous : Char) (start : Nat) (piece : List Char)
    (here : Nat) : List Char → List (Nat × List Char)
  | [] => [(start, piece.reverse)]
  | c :: rest =>
    if c = separator ∧ depth = 0 then
      let next := here + c.utf8Size
      (start, piece.reverse) :: piecesFrom separator depth c next [] next rest
    else
      piecesFrom separator (depth + depthStep previous c) c start (c :: piece) (here + c.utf8Size) rest

/-- The pieces of `text` between the characters `separator` outside all brackets, each with its byte
offset. -/
def piecesOf (separator : Char) (text : List Char) : List (Nat × List Char) :=
  piecesFrom separator 0 ' ' 0 [] 0 text

/-- The pieces of `text` between the commas outside all brackets, each with its byte offset. Pieces
of blanks alone are left out. -/
def splitTopLevel (text : List Char) : List (Nat × List Char) :=
  (piecesOf ',' text).filter fun (_, piece) => !isAllBlank piece

end ApiImpact.Text
