import ApiImpact.Yaml.Plain
import ApiImpact.Yaml.Property

/-!
Flow collections: sequences between brackets and mappings between braces. Line breaks and indentation
mean nothing inside them.
-/

namespace ApiImpact.Yaml

/-- The longest text that may stand before a colon which is not announced by a question mark. -/
def longestKey : Nat := 1024

/-- The text between `start` and `cursor` may be a key: one line that is not too long. -/
def Cursor.mayEndKey (start cursor : Cursor) : Bool :=
  start.line == cursor.line && start.ahead.length - cursor.ahead.length ≤ longestKey

namespace Reading

/-- Passes over the gap; the next character of the collection, which no marker may interrupt. -/
def flowNext : Reading Char := do
  skipGap true
  let cursor ← get
  if cursor.isAtEnd then failure
  cursor.ahead.head?

/-- Passes over the character `c` if it is next, and tells whether it was. -/
def accept (c : Char) : Reading Bool := do
  if (← flowNext) == c then
    advance 1
    return true
  return false

/-- Passes over the character `c`, which has to be next. -/
def expect (c : Char) : Reading Unit := do
  if !(← accept c) then failure

/-- Passes over a colon if it is next, and tells whether it was. What has been read since `start` is then a
key, so it has to be fit for one. -/
def acceptColon (start : Cursor) : Reading Bool := do
  if (← flowNext) != ':' then return false
  if !start.mayEndKey (← get) then failure
  accept ':'

mutual

/-- Reads a node inside a flow collection; the lines of a plain scalar begin no tab before `floor`. -/
def flowNode (floor : Nat) : Nat → Reading Node
  | 0 => failure
  | fuel + 1 => do
    let _ ← flowNext
    let own ← properties true
    match ← flowNext with
    | '*' => if own.isNone then aliasNode else failure
    | ',' | ']' | '\x7d' => if own.isNone then failure else absent own
    | ':' => if own.isNone then failure else absent own
    | _ => flowContent floor own fuel

/-- Reads the content of a node behind its properties. -/
def flowContent (floor : Nat) (own : Properties) : Nat → Reading Node
  | 0 => failure
  | fuel + 1 => do
    match ← flowNext with
    | '[' =>
      advance 1
      let items ← flowItems floor fuel
      finish own (.sequence items)
    | '\x7b' =>
      advance 1
      let entries ← flowEntries floor fuel
      finish own (.mapping entries)
    | '"' => finish own (.scalar (← quoted '"'))
    | '\'' => finish own (.scalar (← quoted '\''))
    | _ =>
      if !beginsPlain true (← get).ahead then failure
      finish own (.scalar (← plain true floor))

/-- Reads the value behind a colon; nothing may stand there. -/
def flowValue (floor : Nat) : Nat → Reading Node
  | 0 => failure
  | fuel + 1 => do
    match ← flowNext with
    | ',' | ']' | '\x7d' => return .empty
    | _ => flowNode floor fuel

/-- Reads the key behind a question mark and its value, if there is one. -/
def flowExplicitEntry (floor : Nat) : Nat → Reading (Node × Node)
  | 0 => failure
  | fuel + 1 => do
    let key ← match ← flowNext with
      | ':' => pure .empty
      | _ => flowValue floor fuel
    let value ← if ← accept ':' then flowValue floor fuel else pure .empty
    return (key, value)

/-- Reads the items up to the closing bracket. An item with a colon is a mapping of one entry. -/
def flowItems (floor : Nat) : Nat → Reading (List Node)
  | 0 => failure
  | fuel + 1 => do
    if ← accept ']' then return []
    let item ← if ← accept '?' then
        pure (.mapping [← flowExplicitEntry floor fuel])
      else do
        let start ← get
        let node ← flowNode floor fuel
        if ← acceptColon start then pure (.mapping [(node, ← flowValue floor fuel)])
        else pure node
    if ← accept ']' then return [item]
    expect ','
    return item :: (← flowItems floor fuel)

/-- Reads the entries up to the closing brace. -/
def flowEntries (floor : Nat) : Nat → Reading (List (Node × Node))
  | 0 => failure
  | fuel + 1 => do
    if ← accept '\x7d' then return []
    let entry ← if ← accept '?' then flowExplicitEntry floor fuel
      else do
        let start ← get
        let key ← flowNode floor fuel
        let value ← if ← acceptColon start then flowValue floor fuel else pure .empty
        pure (key, value)
    if ← accept '\x7d' then return [entry]
    expect ','
    return entry :: (← flowEntries floor fuel)

end

end Reading

end ApiImpact.Yaml
