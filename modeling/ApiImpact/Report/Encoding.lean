import ApiImpact.Json.Basic
import ApiImpact.Report.Basic

/-!
The report as JSON.
-/

namespace ApiImpact

/-- The name of the outcome in data. -/
def ReportStatus.id : ReportStatus → String
  | unchanged => "unchanged"
  | unanalyzable => "unanalyzable"
  | noProvenDependencies => "no-proven-dependencies"
  | impacted => "impacted"

/-- The finding as JSON. -/
def Finding.toJson (f : Finding) : Json :=
  .object [("ruleId", .string f.rule.id), ("severity", .string f.severity.label),
    ("symbol", .string f.symbol), ("message", .string f.message), ("before", .optString f.before),
    ("after", .optString f.after), ("line", .optNat f.line)]

namespace ImpactReport

/-- The counts of the report as JSON. -/
def summaryToJson (report : ImpactReport) : Json :=
  .object [("breaking", .nat (report.count .breaking)), ("warnings", .nat (report.count .warning)),
    ("info", .nat (report.count .info)), ("downstreamFiles", .nat report.downstreamFiles.length),
    ("tests", .nat report.tests.length)]

/-- The report as JSON. -/
def toJson (report : ImpactReport) : Json :=
  .object [("sourceFile", .string report.sourceFile), ("status", .string report.status.id),
    ("functions", .strings report.functions), ("classes", .strings report.classes),
    ("downstreamFiles", .strings report.downstreamFiles),
    ("downstreamLines", .object (report.downstreamLines.map fun (file, line) => (file, .optNat line))),
    ("tests", .strings report.tests), ("findings", .array (report.findings.map Finding.toJson)),
    ("impactedSymbols", .strings report.impactedSymbols), ("summary", report.summaryToJson)]

end ImpactReport

end ApiImpact
