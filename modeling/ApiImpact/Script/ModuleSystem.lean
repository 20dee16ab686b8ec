import ApiImpact.Surface.Snapshot
import ApiImpact.Text.Mask
import ApiImpact.Text.Pattern

/-!
The module system of a source file, told by the words that stand in its code.
-/

namespace ApiImpact.Script

open Text Text.Pattern

/-- The words and signs that follow `export` in a statement. -/
def exportFollowers : List String :=
  ["default", "const", "let", "var", "function", "async", "class", "\x7b", "*", "type", "interface",
    "enum", "abstract", "declare"]

/-- The first character after `import` in a statement. -/
def isImportFollower (c : Char) : Bool :=
  isWordChar c || c == '$' || c == '*' || c == '\x7b' || c == '\'' || c == '"'

/-- An `import` or `export` statement at the beginning of a line or after a semicolon. -/
def esmPattern : Pattern :=
  firstOf [lineStart, char ';'] ++ most isBlank
    ++ firstOf [
      literal "import" ++ most isBlank ++ one isImportFollower,
      literal "export" ++ most isBlank ++ firstOf (exportFollowers.map literal)]

/-- A call of `require` or an access to the exports object. -/
def commonJsPattern : Pattern :=
  firstOf [
    wordEdge ++ literal "require" ++ most isBlank ++ char '(',
    wordEdge ++ literal "module.exports" ++ wordEdge,
    wordEdge ++ literal "exports." ++ one isAsciiIdentifierStart,
    wordEdge ++ literal "defineProperty(" ++ most isBlank ++ literal "exports" ++ wordEdge]

/-- The part of its line that stands before `offset`. -/
def lineBefore (text : List Char) (offset : Nat) : List Char :=
  (((takeBytes? text offset).getD []).reverse.takeWhile (· != '\n')).reverse

/-- A match on a line that begins with `import` belongs to an `import` statement. -/
def isInImport (code : List Char) (m : Match) : Bool :=
  "import".toList.isPrefixOf (trimStart (lineBefore code m.span.start))

/-- The module system of `source`. -/
def moduleSystem (source : String) : ModuleSystem :=
  let code := codeOnly source.toList
  let esm := esmPattern.occursIn code
  let commonJs := (commonJsPattern.findAll code).any fun m => !isInImport code m
  match esm, commonJs with
  | true, true => .mixed
  | true, false => .esm
  | false, true => .commonJs
  | false, false => .unknown

end ApiImpact.Script
