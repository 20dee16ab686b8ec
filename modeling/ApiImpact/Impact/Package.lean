import ApiImpact.Report.Basic

/-!
The impact of a changed package manifest. It concerns every user of the package and no single file of
the project, so the report names no dependents.
-/

namespace ApiImpact.ImpactReport

/-- The report about the manifest `file`, given its contents before and after the change, if it
existed. -/
def ofManifests (file : String) (before after : Option String) : ImpactReport :=
  if before = after then { sourceFile := file, status := .unchanged }
  else
    let change : SurfaceChange :=
      { package := PackageChange.between (before.bind Manifest.parse?) (after.bind Manifest.parse?) }
    .of file change {} [] []

end ApiImpact.ImpactReport
