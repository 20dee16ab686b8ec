import ApiImpact.Yaml.Block
import ApiImpact.Yaml.Flow

/-!
Block collections, whose structure is the indentation. The parts of a collection begin in one column,
and what belongs to a part stands to the right of it: its `floor` is the column after.
-/

namespace ApiImpact.Yaml

namespace Cursor

/-- What stands at the cursor belongs to the part with this `floor`. One column to the left of it may
stand a block scalar and, where `dashes` is set, a sequence. -/
def isInside (cursor : Cursor) (floor : Nat) (dashes : Bool) : Bool :=
  !cursor.isAtEnd && (floor ≤ cursor.column || (floor == cursor.column + 1
    && ((dashes && cursor.isAtIndicator '-')
      || cursor.ahead.head? == some '|' || cursor.ahead.head? == some '>')))

/-- The cursor stands in `column`, where another part of a collection may begin. -/
def isAtPart (cursor : Cursor) (column : Nat) : Bool :=
  !cursor.isAtEnd && cursor.column == column

/-- The rest of the line holds nothing but a comment. -/
def isAtLineEnd (cursor : Cursor) : Bool :=
  cursor.ahead.head?.all fun c => isBreak c || c == '#'

end Cursor

namespace Reading

/-- Passes over one of the signs `-`, `?` and `:` behind which a key may begin, and the gap. -/
def indicator : Reading Unit := do
  advance 1
  setFresh true
  skipGap false

/-- Passes over the colon behind a key and the gap. No other key may begin on the line. -/
def keyColon : Reading Unit := do
  advance 1
  setFresh false
  skipGap false

/-- What has been read since `start` is a key: a key was possible there, and a colon follows. -/
def endsKey (start : Cursor) : Reading Bool := do
  skipBlanks
  let cursor ← get
  return start.fresh && cursor.isAtIndicator ':' && start.mayEndKey cursor

/-- Reads what may be a key: an alias, a scalar of one line or a flow collection. -/
def keyContent (floor : Nat) (own : Properties) (fuel : Nat) : Reading Node := do
  if (← get).isAtIndicator ':' then
    if own.isNone then failure else return ← absent own
  match ← peek? with
  | some '*' => if own.isNone then aliasNode else failure
  | some '"' => finish own (.scalar (← quoted '"'))
  | some '\'' => finish own (.scalar (← quoted '\''))
  | some '[' | some '\x7b' =>
    let node ← flowContent floor own fuel
    setFresh false
    return node
  | _ =>
    if !beginsPlain false (← get).ahead then failure
    finish own (.scalar (← plain false floor))

/-- Reads a key and the colon behind it. -/
def implicitKey (floor : Nat) (fuel : Nat) : Reading Node := do
  let start ← get
  let own ← properties false
  let key ← keyContent floor own fuel
  if !(← endsKey start) then failure
  keyColon
  return key

mutual

/-- Reads a node whose properties on the lines above are `outer`. Properties on a line of their own belong
to the node; in front of a key they belong to the key. -/
def blockNode (floor : Nat) (dashes : Bool) (outer : Properties) : Nat → Reading Node
  | 0 => failure
  | fuel + 1 => do
    let start ← get
    let own ← properties false
    if !own.isNone && (← get).isAtLineEnd then
      skipGap false
      let both ← outer.union? own
      if (← get).isInside floor dashes then blockNode floor dashes both fuel else absent both
    else if (← get).isAtIndicator '-' || (← get).isAtIndicator '?' then
      if !start.fresh || !own.isNone then failure
      blockCollection start outer fuel
    else if (← peek?).any fun c => c == '|' || c == '>' then
      finish (← outer.union? own) (.scalar (← block floor))
    else
      let isAlias := (← peek?) == some '*'
      let content ← keyContent floor own fuel
      if ← endsKey start then
        keyColon
        let value ← blockValue (start.column + 1) fuel
        let entries ← blockEntries start.column fuel
        finish outer (.mapping ((content, value) :: entries))
      else if outer.isNone then return content
      else if isAlias then failure
      else finish (← outer.union? own) content
termination_by structural fuel => fuel

/-- Reads the collection whose first part begins at `start` with a dash or a question mark. -/
def blockCollection (start : Cursor) (outer : Properties) : Nat → Reading Node
  | 0 => failure
  | fuel + 1 => do
    if start.isAtIndicator '-' then finish outer (.sequence (← blockItems start.column fuel))
    else finish outer (.mapping (← blockEntries start.column fuel))
termination_by structural fuel => fuel

/-- Reads the node inside a part with this `floor`; nothing may stand there. -/
def blockValue (floor : Nat) : Nat → Reading Node
  | 0 => failure
  | fuel + 1 => do
    if (← get).isInside floor true then blockNode floor true {} fuel else return .empty
termination_by structural fuel => fuel

/-- Reads the items whose dashes stand in `column`. -/
def blockItems (column : Nat) : Nat → Reading (List Node)
  | 0 => failure
  | fuel + 1 => do
    skipGap false
    let cursor ← get
    if !(cursor.isAtPart column && cursor.isAtIndicator '-') then return []
    indicator
    let item ← if (← get).isInside (column + 1) false then blockNode (column + 1) false {} fuel
      else pure .empty
    return item :: (← blockItems column fuel)
termination_by structural fuel => fuel

/-- Reads the entries whose keys begin in `column`. -/
def blockEntries (column : Nat) : Nat → Reading (List (Node × Node))
  | 0 => failure
  | fuel + 1 => do
    skipGap false
    let cursor ← get
    if !cursor.isAtPart column then return []
    let entry ← if cursor.isAtIndicator '?' then blockExplicitEntry column fuel
      else do
        let key ← implicitKey (column + 1) fuel
        pure (key, ← blockValue (column + 1) fuel)
    return entry :: (← blockEntries column fuel)
termination_by structural fuel => fuel

/-- Reads the entry whose key is announced by a question mark in `column`. -/
def blockExplicitEntry (column : Nat) : Nat → Reading (Node × Node)
  | 0 => failure
  | fuel + 1 => do
    indicator
    let key ← blockValue (column + 1) fuel
    skipGap false
    let cursor ← get
    if cursor.isAtPart column && cursor.isAtIndicator ':' then
      indicator
      pure (key, ← blockValue (column + 1) fuel)
    else pure (key, .empty)
termination_by structural fuel => fuel

end

end Reading

end ApiImpact.Yaml
