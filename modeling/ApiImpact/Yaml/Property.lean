import ApiImpact.Yaml.Quoted

/-!
Anchors and tags, which may stand before a node, and aliases.
-/

namespace ApiImpact.Yaml

/-- What stands before a node. -/
structure Properties where
  anchor : Option String := none
  tag : Option String := none

namespace Properties

/-- Nothing stands before the node. -/
def isNone (properties : Properties) : Bool :=
  properties.anchor.isNone && properties.tag.isNone

/-- Both together; a node has one anchor and one tag at most. -/
def union? (a b : Properties) : Option Properties :=
  if (a.anchor.isSome && b.anchor.isSome) || (a.tag.isSome && b.tag.isSome) then none
  else some { anchor := a.anchor.or b.anchor, tag := a.tag.or b.tag }

end Properties

/-- `c` may stand in the name of an anchor or of the handle of a tag. -/
def isNameChar (c : Char) : Bool :=
  c.isAlphanum || c == '_' || c == '-'

/-- `c` may stand in a tag; the signs of sequences only in a `verbatim` one. -/
def isTagChar (verbatim : Bool) (c : Char) : Bool :=
  isNameChar c || ";/?:@&=+$.!~*'()%".toList.contains c || (verbatim && ",[]".toList.contains c)

/-- The octets that a part of a tag writes, where `%` and two digits are one octet. -/
def tagOctets? : List Char → Option (List UInt8)
  | [] => some []
  | '%' :: a :: b :: rest => do
    let octet ← hexNumber? [a, b]
    some (octet.toUInt8 :: (← tagOctets? rest))
  | '%' :: _ => none
  | c :: rest => do some (c.toNat.toUInt8 :: (← tagOctets? rest))

/-- The part of a tag at the beginning of `text` and the text behind it. -/
def tagPart? (verbatim : Bool) (text : List Char) : Option (String × List Char) := do
  let written := text.takeWhile (isTagChar verbatim)
  let part ← String.fromUTF8? (.mk (← tagOctets? written).toArray)
  some (part, text.drop written.length)

/-- A tag as it is written: its handle and what follows that. -/
structure WrittenTag where
  handle : String
  suffix : String

/-- The handle of a tag whose `!` has been read: one that is named, with a `!` at its end, or else the
short one. -/
def tagHandle (text : List Char) : String × List Char :=
  let name := text.takeWhile isNameChar
  match text.drop name.length with
  | '!' :: rest => (.ofList ('!' :: name ++ ['!']), rest)
  | _ => ("!", text)

/-- The tag at the beginning of `text`, after its first `!`, and the text behind it. Between angle
brackets it stands in full and has no handle; a lone `!` has none either. -/
def writtenTag? : List Char → Option (WrittenTag × List Char)
  | '<' :: text => do
    let (suffix, rest) ← tagPart? true text
    if suffix.isEmpty || rest.head? != some '>' then none
    else some (⟨"", suffix⟩, rest.drop 1)
  | text => do
    let (handle, rest) := tagHandle text
    let (suffix, rest) ← tagPart? false rest
    if !suffix.isEmpty then some (⟨handle, suffix⟩, rest)
    else if handle == "!" then some (⟨"", "!"⟩, rest)
    else none

/-- The name of an anchor at the beginning of `text` and the text behind it. -/
def anchorName? (text : List Char) : Option (String × List Char) :=
  let name := text.takeWhile isNameChar
  let rest := text.drop name.length
  if name.isEmpty || !(endsWord rest || rest.head?.any "?:,]\x7d%@\x60".toList.contains) then none
  else some (.ofList name, rest)

namespace Reading

/-- The full tag that `written` stands for. -/
def resolveTag (written : WrittenTag) : Reading String := do
  if written.handle.isEmpty then return written.suffix
  let base ← (← get).handles.lookup written.handle
  return base ++ written.suffix

/-- Reads a tag; a blank or, in flow collections, a comma must follow. -/
def tag (flow : Bool) : Reading String := do
  advance 1
  let written ← onLine writtenTag?
  let rest := (← get).ahead
  if !(endsWord rest || (flow && rest.head? == some ',')) then failure
  resolveTag written

/-- Reads the name of an anchor or alias behind its sign. -/
def anchor : Reading String := do
  advance 1
  onLine anchorName?

/-- Reads the properties that stand on this line, and the blanks behind them. -/
def properties (flow : Bool) : Reading Properties := do
  let first ← property
  if first.isNone then return first
  let second ← property
  first.union? second
where
  /-- Reads one property, if one is next. -/
  property : Reading Properties := do
    match ← peek? with
    | some '&' =>
      let name ← anchor
      setFresh false
      skipBlanks
      return { anchor := some name }
    | some '!' =>
      let name ← tag flow
      setFresh false
      skipBlanks
      return { tag := some name }
    | _ => return {}

/-- The finished `node` with its properties. A scalar keeps its tag, unless that is the lone `!`. -/
def finish (properties : Properties) (node : Node) : Reading Node := do
  let node := match node with
    | .scalar s => .scalar { s with tag := properties.tag.filter (· != "!") }
    | node => node
  if let some name := properties.anchor then
    modify fun cursor => { cursor with anchors := (name, node) :: cursor.anchors }
  return node

/-- The node that stands where only properties are written, or nothing. -/
def absent (properties : Properties) : Reading Node := do
  let node := Node.scalar { text := "", tag := properties.tag }
  if let some name := properties.anchor then
    modify fun cursor => { cursor with anchors := (name, node) :: cursor.anchors }
  return node

/-- Reads an alias: the last node before it that has the anchor. -/
def aliasNode : Reading Node := do
  let name ← anchor
  setFresh false
  (← get).anchors.lookup name

end Reading

end ApiImpact.Yaml
