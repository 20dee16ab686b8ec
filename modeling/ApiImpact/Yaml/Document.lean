import ApiImpact.Yaml.Outline

/-!
A YAML text with one document.
-/

namespace ApiImpact.Yaml

/-- The digits of a version number at the beginning of `text`. -/
def versionNumber? (text : List Char) : Option (Nat × List Char) :=
  let digits := text.takeWhile Char.isDigit
  if digits.isEmpty || digits.length > 9 then none
  else some (Json.digitsValue digits, text.drop digits.length)

/-- The handle of a tag at the beginning of `text`: `!`, or a name between two of them. -/
def declaredHandle? (text : List Char) : Option (String × List Char) := do
  if text.head? != some '!' then none
  let (handle, rest) := tagHandle (text.drop 1)
  if !(rest.head?.any isGap) then none
  else some (handle, rest)

namespace Reading

/-- Reads the version of YAML that the text claims; the versions 1.1 and 1.2 are known. -/
def versionDirective : Reading Unit := do
  skipBlanks
  let major ← onLine versionNumber?
  if (← peek?) != some '.' then failure
  advance 1
  let minor ← onLine versionNumber?
  if major != 1 || !(minor == 1 || minor == 2) then failure
  lineEnd

/-- Reads what the handle of a tag stands for. A handle is declared once. -/
def tagDirective (declared : List String) : Reading String := do
  skipBlanks
  let handle ← onLine declaredHandle?
  if declared.contains handle then failure
  skipBlanks
  let base ← onLine (tagPart? true)
  if base.isEmpty || !endsWord (← get).ahead then failure
  modify fun cursor => { cursor with handles := (handle, base) :: cursor.handles }
  lineEnd
  return handle

/-- Reads directives, at most `fuel` of them, and tells whether there was one. -/
def directives (versioned : Bool) (declared : List String) : Nat → Reading Bool
  | 0 => failure
  | fuel + 1 => do
    skipGap false
    let cursor ← get
    if !(cursor.column == 0 && cursor.ahead.head? == some '%') then
      return versioned || !declared.isEmpty
    advance 1
    setFresh false
    if beginsWithWord "YAML".toList (← get).ahead then
      if versioned then failure
      advance 4
      versionDirective
      directives true declared fuel
    else if beginsWithWord "TAG".toList (← get).ahead then
      advance 3
      let handle ← tagDirective declared
      directives versioned (handle :: declared) fuel
    else failure

/-- Passes over the marker `word` if it is next, and tells whether it was. -/
def marker (word : String) : Reading Bool := do
  let cursor ← get
  if cursor.column == 0 && beginsWithWord word.toList cursor.ahead then
    advance word.length
    setFresh false
    return true
  return false

/-- Passes over markers of the end, at most `fuel` of them, up to the end of the text. -/
def textEnd : Nat → Reading Unit
  | 0 => failure
  | fuel + 1 => do
    skipGap false
    if (← get).ahead.isEmpty then return
    if !(← marker "...") then failure
    textEnd fuel

/-- Reads the text of one document. Directives ask for a marker before the document. Without a marker a
text that is not empty has a node. -/
def document (fuel : Nat) : Reading Node := do
  let directed ← directives false [] fuel
  let marked ← marker "---"
  if directed && !marked then failure
  if marked then skipGap false
  let cursor ← get
  if cursor.ahead.isEmpty then return .empty
  let root ←
    if !cursor.isAtEnd then blockNode 0 false {} fuel
    else if marked then pure .empty
    else failure
  textEnd fuel
  return root

end Reading

/-- The node that `text` writes. A text without content writes the empty node. -/
def read? (text : String) : Option Node := do
  let characters := text.toList
  if !characters.all isAllowed then none
  else
    let ahead := if characters.head? == some '\ufeff' then characters.drop 1 else characters
    let fuel := 8 * characters.length + 16
    ((Reading.document fuel).run { ahead }).map (·.1)

end ApiImpact.Yaml
