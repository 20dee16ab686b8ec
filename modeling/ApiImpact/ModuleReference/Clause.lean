import ApiImpact.Surface.Snapshot

/-!
References to modules: the places of a source file that name another module by a literal.
-/

namespace ApiImpact

/-- A place that names a module. -/
inductive ModuleReference where
  /-- An `import` or `export … from` statement. -/
  | static (specifier : String) (line : Nat) (typeOnly reexport : Bool) (names : List ImportedName)
  /-- A call of `import` with a literal. -/
  | dynamic (specifier : String) (line : Nat)
  /-- A call of `require`; a binding of the whole module has the imported name `*`. -/
  | require (specifier : String) (line : Nat) (names : List ImportedName)
  deriving DecidableEq, Repr, Inhabited

namespace ModuleReference

/-- The module as written. -/
def specifier : ModuleReference → String
  | static specifier .. | dynamic specifier _ | require specifier .. => specifier

/-- The 1-based line. -/
def line : ModuleReference → Nat
  | static _ line .. | dynamic _ line | require _ line _ => line

/-- The names it binds; none for a dynamic import. -/
def names : ModuleReference → List ImportedName
  | static _ _ _ _ names | require _ _ names => names
  | dynamic .. => []

/-- It binds `name`, by itself or with the whole module. -/
def binds (r : ModuleReference) (name : String) : Bool :=
  r.names.any fun n => n.imported == name || n.imported == "*"

/-- It is a call of `require`. -/
def isRequire : ModuleReference → Bool
  | require .. => true
  | _ => false

end ModuleReference

/-- `specifier` is a relative path: `.` or `..`, alone or followed by a slash. -/
def isRelativeSpecifier (specifier : String) : Bool :=
  specifier == "." || specifier == ".." || Text.beginsWith specifier "./"
    || Text.beginsWith specifier "../"

/-- The module is named by a relative path. -/
def ModuleReference.isRelative (r : ModuleReference) : Bool :=
  isRelativeSpecifier r.specifier

end ApiImpact

/-!
The clauses of import statements: which names a reference binds. Clauses come from masked text, so they
hold no comments.
-/

namespace ApiImpact.ModuleReference

open Text

/-- The name `imported` bound to `localName`. -/
def bound (imported localName : List Char) : ImportedName :=
  ⟨.ofList imported, .ofList localName⟩

/-- The parts of `list` between commas, trimmed, without empty ones. -/
def commaParts (list : List Char) : List (List Char) :=
  ((splitAtChars (· == ',') list).map trim).filter (!·.isEmpty)

/-- One entry of a brace list: `a`, `a as b`, each perhaps after an inline `type`. -/
def listEntry? (part : List Char) : Option ImportedName :=
  let part := match dropPrefix? "type ".toList part with
    | some rest => trim rest
    | none => part
  match words part with
  | [] => none
  | imported :: ['a', 's'] :: localName :: _ => some (bound imported localName)
  | imported :: _ => some (bound imported imported)

/-- The entries between the braces of an import or re-export. -/
def listEntries (list : List Char) : List ImportedName :=
  (commaParts list).filterMap listEntry?

/-- `part` is one identifier. -/
def isIdentifier : List Char → Bool
  | [] => false
  | c :: rest => (isAlphabetic c || c == '_' || c == '$') && rest.all isIdentifierChar

/-- The local name of a namespace after its star: what follows the word `as`. -/
def namespaceName (afterStar : List Char) : List Char :=
  trim (dropLeadingCopies "as".toList (trim afterStar))

/-- The clause of an import cut into what stands outside its braces and what stands inside. -/
def cutBraces (clause : List Char) : List Char × Option (List Char) :=
  let before := clause.takeWhile (· != '\x7b')
  let afterReversed := clause.reverse.takeWhile (· != '\x7d')
  let inside := (clause.drop (before.length + 1)).take
    (clause.length - before.length - afterReversed.length - 2)
  if before.length + afterReversed.length + 2 ≤ clause.length then
    (before ++ ' ' :: afterReversed.reverse, some inside)
  else (clause, none)

/-- One part of an import clause outside its braces: a namespace or the default binding. -/
def outsidePart? : List Char → Option ImportedName
  | '*' :: rest =>
    let localName := namespaceName rest
    if localName.isEmpty then none else some (bound ['*'] localName)
  | part => if isIdentifier part then some (bound "default".toList part) else none

/-- The names that an import clause binds: those outside the braces, then those inside. -/
def importClause (clause : List Char) : List ImportedName :=
  let (outside, inside) := cutBraces (trim clause)
  (commaParts outside).filterMap outsidePart? ++ (inside.elim [] listEntries)

/-- The names that a re-export passes on. -/
def reexportClause (clause : List Char) : List ImportedName :=
  match trim clause with
  | '*' :: rest =>
    let localName := namespaceName rest
    [bound ['*'] (if localName.isEmpty then ['*'] else localName)]
  | clause => listEntries (dropEndWhile (· == '\x7d') (clause.dropWhile (· == '\x7b')))

/-- `text` up to the first `=`, trimmed. -/
def beforeDefault (text : List Char) : List Char :=
  trim (text.takeWhile (· != '='))

/-- One entry of a destructuring of a required module: `a`, `a: b`, each perhaps with a default. -/
def destructured (part : List Char) : ImportedName :=
  let imported := part.takeWhile (· != ':')
  if imported.length < part.length then
    bound (trim imported) (beforeDefault (part.drop (imported.length + 1)))
  else bound (beforeDefault part) (beforeDefault part)

/-- The names that the binding of a required module binds. -/
def requireBinding (binding : List Char) : List ImportedName :=
  match trim binding with
  | '\x7b' :: inner =>
    ((commaParts (dropEndWhile (· == '\x7d') inner)).filter
      fun part => !"...".toList.isPrefixOf part).map destructured
  | whole => [bound ['*'] whole]

end ApiImpact.ModuleReference
