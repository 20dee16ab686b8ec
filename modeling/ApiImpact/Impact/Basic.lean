import ApiImpact.Path.Basic

/-!
What a change of one file reaches: the files that depend on it, and the tests that exercise it.
-/

namespace ApiImpact

/-- A file that depends on the changed file. -/
structure Dependent where
  path : Path
  /-- The line of the import that links it to the changed file, when it imports that file itself. -/
  line : Option Nat
  /-- The number of imports that lead from it to the changed file, at least. -/
  depth : Nat
  /-- It is a test by its name or directory. -/
  isTest : Bool
  deriving DecidableEq, Repr

/-- What ties a test to the changed file. -/
inductive Evidence where
  /-- The test depends on the changed file. -/
  | graph
  /-- The test imports the changed file. -/
  | importsFile
  /-- The syntax of the test shows a changed name in use. -/
  | syntaxUsage
  /-- The text of the test shows a changed name in use. -/
  | patternUsage
  deriving DecidableEq, Repr

/-- The name of the evidence in data. -/
def Evidence.label : Evidence → String
  | graph => "graph"
  | importsFile => "import"
  | syntaxUsage => "ast-usage"
  | patternUsage => "pattern-usage"

/-- A test that is tied to the changed file. -/
structure AffectedTest where
  path : Path
  evidence : Evidence
  deriving DecidableEq, Repr

end ApiImpact
