import ApiImpact.Json.Reader
import ApiImpact.Text.Blank

/-!
The part of a package manifest that consumers see: the module type and the map of entry points.
-/

namespace ApiImpact

/-- The `type` field of a manifest. -/
inductive ManifestType where
  | module
  | commonJs
  | missing
  deriving DecidableEq, Repr, Inhabited

/-- The name of the type in messages. -/
def ManifestType.label : ManifestType → String
  | module => "Module"
  | commonJs => "CommonJs"
  | missing => "Missing"

/-- The `exports` field of a manifest. -/
inductive EntryPoints where
  | path (text : String)
  /-- Subpaths or conditions, sorted by key. -/
  | map (entries : List (String × Json))
  | list (items : List Json)
  deriving Repr, BEq, Inhabited

namespace EntryPoints

/-- At least one entry point is exposed. -/
def hasEntries : EntryPoints → Bool
  | path text => !Text.isAllBlank text.toList
  | map entries => !entries.isEmpty
  | list items => !items.isEmpty

/-- The subpaths that are exposed. A bare path, a list and a map of conditions expose the root, `.`. -/
def subpaths (e : EntryPoints) : List String :=
  match e with
  | map entries =>
    if entries.any fun (key, _) => Text.beginsWith key "." then entries.map (·.1)
    else if entries.isEmpty then [] else ["."]
  | e => if e.hasEntries then ["."] else []

end EntryPoints

/-- A package manifest. -/
structure Manifest where
  moduleType : ManifestType
  entryPoints : Option EntryPoints
  deriving Repr, BEq, Inhabited

namespace Manifest

/-- Puts a member into a list sorted by key, in place of one with the same key. -/
def insertMember (key : String) (value : Json) : List (String × Json) → List (String × Json)
  | [] => [(key, value)]
  | (k, v) :: rest =>
    if key < k then (key, value) :: (k, v) :: rest
    else if key = k then (key, value) :: rest
    else (k, v) :: insertMember key value rest

/-- The members sorted by key, the last one of each key. -/
def sortMembers (members : List (String × Json)) : List (String × Json) :=
  members.foldl (fun sorted (key, value) => insertMember key value sorted) []

mutual

/-- The value with the members of all objects sorted by key, the last one of each key. -/
def sorted : Json → Json
  | .array items => .array (sortedItems items)
  | .object members => .object (sortMembers (sortedMembers members))
  | value => value

/-- The items, each sorted. -/
def sortedItems : List Json → List Json
  | [] => []
  | item :: items => sorted item :: sortedItems items

/-- The members, the value of each sorted. -/
def sortedMembers : List (String × Json) → List (String × Json)
  | [] => []
  | (key, value) :: members => (key, sorted value) :: sortedMembers members

end

/-- The `type` field that a value gives; a value of another type is an error. -/
def moduleTypeOf? : Json → Option ManifestType
  | .null => some .missing
  | .string "module" => some .module
  | .string "commonjs" => some .commonJs
  | .string _ => some .missing
  | _ => none

/-- The `exports` field that a value gives; a number or a truth value is an error. -/
def entryPointsOf? : Json → Option (Option EntryPoints)
  | .null => some none
  | .string text => some (some (.path text))
  | .array items => some (some (.list (sortedItems items)))
  | .object members => some (some (.map (sortMembers (sortedMembers members))))
  | _ => none

/-- The value of the one member named `name`; null when there is none, an error when there are several. -/
def single? (name : String) (members : List (String × Json)) : Option Json :=
  match members.filter (·.1 == name) with
  | [] => some .null
  | [(_, value)] => some value
  | _ => none

/-- How deep the values of a manifest may be nested. -/
def maxDepth : Nat := 126

/-- Reads the value of a manifest field. Fields other than the two of interest are passed over. -/
def readField? (name : String) (text : List Char) : Option (Json × List Char) :=
  if name = "type" ∨ name = "exports" then Json.readValue? .exact maxDepth text
  else Json.readValue? .shape text.length text

/-- The manifest that the whole of `text` writes: an object, or the two fields in an array. -/
def parse? (text : String) : Option Manifest := do
  let ((moduleType, entryPoints), rest) ←
    match Json.skipBlanks text.toList with
    | '\x7b' :: rest => do
      let (members, rest) ← Json.readObject? .exact readField? rest
      some ((← single? "type" members, ← single? "exports" members), rest)
    | '[' :: rest => do
      match ← Json.readArray? (Json.readValue? .exact maxDepth) rest with
      | ([moduleType, entryPoints], rest) => some ((moduleType, entryPoints), rest)
      | _ => none
    | _ => none
  if (Json.skipBlanks rest).isEmpty then
    some ⟨← moduleTypeOf? moduleType, ← entryPointsOf? entryPoints⟩
  else none

/-- The manifest exposes entry points. -/
def hasEntryPoints (m : Manifest) : Bool :=
  m.entryPoints.any (·.hasEntries)

/-- The module type in effect: without a `type` field a package is CommonJS. -/
def effectiveType (m : Manifest) : ManifestType :=
  match m.moduleType with
  | .missing => .commonJs
  | type => type

end Manifest

end ApiImpact
