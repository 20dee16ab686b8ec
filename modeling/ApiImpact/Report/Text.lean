import ApiImpact.Report.Basic

/-!
The report as text for a terminal.
-/

namespace ApiImpact

/-- The words for the outcome. -/
def ReportStatus.description : ReportStatus → String
  | unchanged => "no API surface changes"
  | unanalyzable => "could not be analyzed"
  | noProvenDependencies => "changed; no proven dependents"
  | impacted => "changed"

/-- The finding as lines of text. -/
def Finding.lines (f : Finding) : List String :=
  let place := f.line.elim "" fun line => s!":{line}"
  s!"  [{f.severity.label}] {f.message} ({f.rule.id}{place})"
    :: (f.before.toList.map fun text => s!"      - {text}")
    ++ f.after.toList.map fun text => s!"      + {text}"

namespace ImpactReport

/-- The file with the line of its import, if that is known. -/
def fileLine (report : ImpactReport) (file : String) : String :=
  match report.downstreamLines.lookup file with
  | some (some line) => s!"    {file}:{line}"
  | _ => s!"    {file}"

/-- The lines on the findings. -/
def findingLines (report : ImpactReport) : List String :=
  let breaking := report.count .breaking
  let warnings := report.count .warning
  let info := report.count .info
  s!"  {breaking} breaking, {warnings} warning(s), {info} info" :: ""
    :: report.findings.flatMap Finding.lines

/-- A list of files under a heading; nothing for an empty list. -/
def listing (heading : String) (files : List String) (line : String → String) : List String :=
  if files.isEmpty then []
  else "" :: s!"  {heading} ({files.length}):" :: files.map line

/-- The lines of the report. Without findings the outcome is all there is to say. -/
def lines (report : ImpactReport) : List String :=
  s!"{report.sourceFile}: {report.status.description}" ::
    if report.findings.isEmpty then []
    else report.findingLines
      ++ listing "downstream files" report.downstreamFiles report.fileLine
      ++ listing "affected tests" report.tests fun test => s!"    {test}"

/-- The report as text. -/
def toText (report : ImpactReport) : String :=
  String.join (report.lines.map (· ++ "\n"))

end ImpactReport

end ApiImpact
