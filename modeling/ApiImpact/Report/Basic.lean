import ApiImpact.Impact.Basic
import ApiImpact.Report.Finding
import ApiImpact.Text.Blank

/-!
Which findings are reported: of all findings about one symbol the gravest, and of equally grave ones
the one of the highest priority, the first of them if there are several. Findings that come from
patterns in the text say so.
-/

namespace ApiImpact.Finding

/-- `f` ranks above `kept`: severity decides, and then the priority of the rule. -/
def outranks (f kept : Finding) : Bool :=
  kept.severity.weight < f.severity.weight
    || (kept.severity.weight == f.severity.weight && kept.rule.priority < f.rule.priority)

/-- The best findings by symbol with `f` taken in. -/
def keepBest (best : Std.ExtTreeMap String Finding) (f : Finding) : Std.ExtTreeMap String Finding :=
  match best[f.symbol]? with
  | none => best.insert f.symbol f
  | some kept => if f.outranks kept then best.insert f.symbol f else best

/-- The best finding of every symbol, by symbol. -/
def best (findings : List Finding) : List Finding :=
  (findings.foldl keepBest ∅).toList.map (·.2)

/-- What findings from patterns end with. -/
def disclaimer : String :=
  " (heuristic: derived from source patterns, not type checking)"

/-- Words that mark a message as uncertain by themselves. -/
def hedges : List String := ["likely", "potential", "possibly"]

/-- The small letter of a letter, as far as small Latin letters without marks are concerned. -/
def smallLetter (c : Char) : Char :=
  if c.toNat = 0x212A then 'k' else c.toLower

/-- The message holds a word that marks it as uncertain. -/
def isHedged (message : String) : Bool :=
  hedges.any fun hedge => Text.holds hedge.toList (message.toList.map smallLetter)

/-- The finding has to say that it comes from patterns. -/
def needsDisclaimer (typed : Bool) (f : Finding) : Bool :=
  !f.rule.skipsDisclaimer && (f.rule.isHeuristic || !typed) && !isHedged f.message

/-- The finding with the disclaimer, if it needs one. -/
def disclaim (typed : Bool) (f : Finding) : Finding :=
  if f.needsDisclaimer typed then { f with message := f.message ++ disclaimer } else f

/-- The findings that are reported. -/
def reported (typed : Bool) (findings : List Finding) : List Finding :=
  (best findings).map (disclaim typed)

end ApiImpact.Finding

/-!
The report about one changed file: the findings and what depends on the file. Every list is sorted.
-/

namespace ApiImpact

/-- The outcome of an analysis. -/
inductive ReportStatus where
  | unchanged
  /-- One of the sides could not be analyzed. -/
  | unanalyzable
  /-- Something changed, and nothing is known to depend on it. -/
  | noProvenDependencies
  | impacted
  deriving DecidableEq, Repr, Inhabited

/-- The report about one changed file. -/
structure ImpactReport where
  /-- The changed file relative to the root of the project. -/
  sourceFile : String
  status : ReportStatus
  functions : List String := []
  classes : List String := []
  downstreamFiles : List String := []
  /-- The line of the import for each file that depends on the changed one, tests included. -/
  downstreamLines : List (String × Option Nat) := []
  tests : List String := []
  findings : List Finding := []
  deriving DecidableEq, Repr

namespace ImpactReport

/-- The number of findings of one severity. -/
def count (report : ImpactReport) (severity : Severity) : Nat :=
  report.findings.countP (·.severity == severity)

/-- Some finding is breaking. -/
def hasBreaking (report : ImpactReport) : Bool :=
  0 < report.count .breaking

/-- The symbols that findings are filed under. -/
def impactedSymbols (report : ImpactReport) : List String :=
  Text.sortedDistinct (report.findings.map (·.symbol))

/-- The names of the declarations of one kind that findings are about, additions left out. -/
def ownersOf (kind : SymbolKind) (findings : List Finding) : List String :=
  Text.sortedDistinct <| findings.filterMap fun f =>
    if f.rule = .symbolAdded ∨ f.rule = .exportAdded then none
    else (f.owner.filter (·.1 == kind)).map (·.2)

/-- The lines of the imports, by file. -/
def linesOf (root : Path) (dependents : List Dependent) : List (String × Option Nat) :=
  (Std.ExtTreeMap.ofList (dependents.map fun d => (Path.display root d.path, d.line))).toList

/-- The report about `change`, with what depends on the file. -/
def of (sourceFile : String) (change : SurfaceChange) (root : Path) (dependents : List Dependent)
    (tests : List AffectedTest) : ImpactReport :=
  if change.isEmpty then { sourceFile, status := .unchanged }
  else
    let findings := Finding.reported change.typed (Finding.all change)
    { sourceFile
      status := if dependents.isEmpty && tests.isEmpty then .noProvenDependencies else .impacted
      functions := ownersOf .function findings
      classes := ownersOf .classType findings
      downstreamFiles := (dependents.filter (!·.isTest)).map fun d => Path.display root d.path
      downstreamLines := linesOf root dependents
      tests := tests.map fun t => Path.display root t.path
      findings }

end ImpactReport

end ApiImpact
