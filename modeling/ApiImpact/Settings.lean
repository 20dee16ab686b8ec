/-!
Settings of an analysis.
-/

namespace ApiImpact

/-- What may be adjusted. -/
structure Settings where
  /-- Names of directories that a project walk never enters. -/
  skippedDirs : List String :=
    ["node_modules", "bower_components", "jspm_packages", "dist", "build", "out", "coverage",
      "target", ".git", ".hg", ".svn", ".next", ".nuxt", ".turbo", ".cache"]
  /-- Names of directories that hold tests. -/
  testDirs : List String := ["__tests__", "test", "tests", "spec", "e2e"]
  /-- Parts of file names that mark a test. -/
  testMarkers : List String := [".test.", ".spec."]
  /-- The score at which a removed and an added export count as one change. -/
  pairingThreshold : UInt8 := 2
  /-- The size in bytes of the largest file that is analyzed. -/
  maxFileBytes : Nat := 2 * 1024 * 1024
  /-- The time that a project walk may take, in milliseconds; unlimited if absent. -/
  walkBudget : Option Nat := none
  deriving DecidableEq, Repr, Inhabited

end ApiImpact
