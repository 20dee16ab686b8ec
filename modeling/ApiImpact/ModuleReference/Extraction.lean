import ApiImpact.ModuleReference.Clause
import ApiImpact.Text.Offset
import ApiImpact.Text.Mask
import ApiImpact.Text.Pattern

/-!
Finding the module references of a source file. Patterns run over the code alone, so comments and the
contents of literals never look like imports; the specifier is then read at the same offsets from the
text without comments.
-/

namespace ApiImpact.ModuleReference

open Text Text.Pattern

/-- A quotation mark. -/
def isQuote (c : Char) : Bool := c == '\'' || c == '"'

/-- A character of an identifier, dollar signs included. -/
def isNameChar (c : Char) : Bool := isWordChar c || c == '$'

/-- A character that an import clause is made of. -/
def isClauseChar (c : Char) : Bool :=
  isNameChar c || c == '*' || c == '\x7b' || c == '\x7d' || c == ',' || isBlank c

/-- A list in braces. -/
def braced : Pattern := char '\x7b' ++ most (· != '\x7d') ++ char '\x7d'

/-- An optional `type`, as group 1. -/
def typeModifier : Pattern := optional (group 1 (literal "type" ++ most1 isBlank))

/-- `import … from`, with the clause as group 2 and the quote as group 3. -/
def staticPattern : Pattern :=
  wordEdge ++ literal "import" ++ most1 isBlank ++ typeModifier ++ group 2 (fewest1 isClauseChar)
    ++ most isBlank ++ wordEdge ++ literal "from" ++ most isBlank ++ group 3 (one isQuote)

/-- `import` of a module for its effects, with the quote as group 1. -/
def bareImportPattern : Pattern :=
  wordEdge ++ literal "import" ++ most isBlank ++ group 1 (one isQuote)

/-- `export … from`, with the clause as group 2 and the quote as group 3. -/
def reexportPattern : Pattern :=
  wordEdge ++ literal "export" ++ most1 isBlank ++ typeModifier
    ++ group 2 (firstOf [
      char '*' ++ optional (most1 isBlank ++ literal "as" ++ most1 isBlank ++ most1 isNameChar),
      braced])
    ++ most isBlank ++ literal "from" ++ most isBlank ++ group 3 (one isQuote)

/-- A call of `import`, with the quote as group 1. -/
def dynamicPattern : Pattern :=
  wordEdge ++ literal "import" ++ most isBlank ++ char '(' ++ most isBlank
    ++ group 1 (one fun c => isQuote c || c == '\x60')

/-- A call of `require`, perhaps with what it is bound to as group 1, with the quote as group 2. -/
def requirePattern : Pattern :=
  optional (wordEdge ++ firstOf [literal "const", literal "let", literal "var", literal "import"]
      ++ most1 isBlank ++ group 1 (firstOf [most1 isNameChar, braced])
      ++ most isBlank ++ char '=' ++ most isBlank)
    ++ wordEdge ++ literal "require" ++ most isBlank ++ char '(' ++ most isBlank
    ++ group 2 (one isQuote)

/-- The two masks of a source between which a reference is read, and the lines of the source. -/
structure Masks where
  /-- The line and column of every byte offset. -/
  position : Nat → Position
  /-- The source without comments. -/
  text : List Char
  /-- The source without comments and contents of literals. -/
  code : List Char

/-- The masks of `source`. -/
def Masks.of (source : List Char) : Masks :=
  { position := positionOf source, text := withoutComments source, code := codeOnly source }

namespace Masks

/-- The code of a group of a match; empty when the group took no part. -/
def groupText (masks : Masks) (m : Match) (index : Nat) : List Char :=
  match m.group? index with
  | some span => (slice? masks.code span.start span.stop).getD []
  | none => []

/-- The contents of the literal whose opening quote is the group `index`; `none` when they are empty. -/
def quoted? (masks : Masks) (m : Match) (index : Nat) : Option String := do
  let quote ← (← slice? masks.code (← m.group? index).start (← m.group? index).stop).head?
  let start := (← m.group? index).stop
  let width ← findOffset? (· == quote) (← dropBytes? masks.code start)
  let contents ← slice? masks.text start (start + width)
  if contents.isEmpty then none else some (.ofList contents)

/-- The line on which a match begins. -/
def lineOf (masks : Masks) (m : Match) : Nat :=
  (masks.position m.span.start).line

/-- All references that `pattern` finds, with the offsets at which they begin; `read` gives the
reference of a match whose specifier stands in the group `quote`. -/
def collect (masks : Masks) (pattern : Pattern) (quote : Nat)
    (read : Match → String → Option ModuleReference) : List (Nat × ModuleReference) :=
  (pattern.findAll masks.code).filterMap fun m => do
    let reference ← read m (← masks.quoted? m quote)
    some (m.span.start, reference)

end Masks

/-- Every reference that the patterns find, pattern by pattern. -/
def found (masks : Masks) : List (Nat × ModuleReference) :=
  masks.collect staticPattern 3 (fun m specifier =>
      some (.static specifier (masks.lineOf m) (m.group? 1).isSome false
        (importClause (masks.groupText m 2))))
    ++ masks.collect bareImportPattern 1 (fun m specifier =>
      some (.static specifier (masks.lineOf m) false false []))
    ++ masks.collect reexportPattern 3 (fun m specifier =>
      some (.static specifier (masks.lineOf m) (m.group? 1).isSome true
        (reexportClause (masks.groupText m 2))))
    ++ masks.collect dynamicPattern 1 (fun m specifier =>
      if holds "$\x7b".toList specifier.toList then none
      else some (.dynamic specifier (masks.lineOf m)))
    ++ masks.collect requirePattern 2 (fun m specifier =>
      some (.require specifier (masks.lineOf m)
        (if (m.group? 1).isSome then requireBinding (masks.groupText m 1) else [])))

/-- The module references of `source` in the order in which they stand. -/
def extract (source : String) : List ModuleReference :=
  ((found (.of source.toList)).mergeSort fun a b => a.1 ≤ b.1).map (·.2)

end ApiImpact.ModuleReference
