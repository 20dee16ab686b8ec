import ApiImpact.Capture
import ApiImpact.Text.Pattern

/-!
Whether a test that names the changed file uses what changed: by the syntax of a typed test, or else by
patterns in its text.
-/

namespace ApiImpact.Usage

open Text

/-- The name that a specifier uses for the file at `path`: the name without its ending, or that of its
directory for an index. -/
def targetName (path : Path) : String :=
  if path.stem = "index" then ((path.parent?.bind (·.fileName?)).getD path.stem) else path.stem

/-- The segment of `specifier` that names a file: the last one, or the one before an index. -/
def namingSegment (specifier : String) : List Char :=
  let text := dropEndWhile (· == '/') specifier.toList
  match (splitAtChars (· == '/') text).reverse with
  | [] => []
  | last :: rest =>
    if last == "index".toList || "index.".toList.isPrefixOf last then rest.head?.getD last else last

/-- `specifier` names a file called `target`. Modules of the platform and bare names of packages name no
files. -/
def namesTarget (specifier target : String) : Bool :=
  let segment := namingSegment specifier
  !beginsWith specifier "node:" && specifier.contains '/' && !segment.isEmpty
    && (Path.ofString (.ofList segment)).stem == target

/-- How a local name reaches the module that is imported. -/
inductive Binding where
  /-- It is bound to one export. -/
  | direct (localName : String)
  /-- It is bound to the whole module. -/
  | whole (localName : String)
  deriving DecidableEq, Repr

/-- The binding that reaches one of `changed`, if the imported name does. -/
def bindingOf? (changed : List String) (name : ImportedName) : Option Binding :=
  if name.imported = "*" then some (.whole name.localName)
  else if changed.contains name.imported then some (.direct name.localName)
  else none

/-- The bindings that reach one of `changed`. -/
def bindings (changed : List String) (names : List ImportedName) : List Binding :=
  names.filterMap (bindingOf? changed)

/-- `reference` uses one of `changed` through the binding. -/
def Binding.isUsedBy (changed : List String) (reference : TypeScript.Reference) : Binding → Bool
  | direct localName => reference.name == localName
  | whole localName => reference.name == localName && reference.member.any changed.contains

/-- The names bound by the references `named` in a typed test: those of its import statements of these
modules, and those of the calls of `require` among the references. -/
def boundNames (named : List ModuleReference) (snapshot : Snapshot) : List ImportedName :=
  let specifiers := named.map (·.specifier)
  (snapshot.imports.filter fun i => specifiers.contains i.module).flatMap (·.names)
    ++ (named.filter (·.isRequire)).flatMap (·.names)

/-- The syntax of the typed test `source` shows one of `changed` in use. -/
def inSyntax (path : Path) (language : Language) (source : String) (named : List ModuleReference)
    (changed : List String) : Except Script.InsideCharacter Bool := do
  let snapshot ← Snapshot.capture {} (Path.slashed path.toString) source none
  let references := TypeScript.references source language
  return (bindings changed (boundNames named snapshot)).any fun binding =>
    references.any fun reference => binding.isUsedBy changed reference

/-- A character of a name. -/
def isNamePart (c : Char) : Bool := isWordChar c || c == '$'

/-- At the beginning of a name. -/
def nameStart : Pattern := Pattern.orElse .textStart (.one (!isNamePart ·))

/-- At the end of a name. -/
def nameEnd : Pattern := Pattern.orElse (.one (!isNamePart ·)) .textEnd

/-- The name `name`, not as a property, being called or looked into. -/
def nameUse (name : String) : Pattern :=
  .orElse .textStart (.one fun c => !isNamePart c && c != '.') ++ .literal name ++ .most isBlank
    ++ .one fun c => c == '(' || c == '.' || c == '['

/-- One of `members` read through the name `name`, or any member by its index. -/
def memberUse (name : String) (members : List String) : Pattern :=
  nameStart ++ .literal name ++ .most isBlank
    ++ .orElse
      (.char '.' ++ .most isBlank ++ .firstOf (members.map .literal) ++ nameEnd)
      (.char '[')

/-- The pattern of a use of one of `changed` through the binding. -/
def Binding.pattern (changed : List String) : Binding → Pattern
  | direct localName => nameUse localName
  | whole localName => memberUse localName changed

/-- The text of the test `source` shows one of `changed` in use, under its own name or a bound one. -/
def inText (source : String) (named : List ModuleReference) (changed : List String) : Bool :=
  let code := codeOnly source.toList
  let own := (changed.filter (· != "default")).map nameUse
  let bound := named.flatMap fun r => (bindings changed r.names).map (Binding.pattern changed)
  (own ++ bound).any fun pattern => pattern.occursIn code

end ApiImpact.Usage
