import ApiImpact.Proofs.Impact.Partition
import ApiImpact.Proofs.Report.Owners
import ApiImpact.Report.Encoding

/-!
# What an analysis comes to

An analysis ends in one of four ways, and the report tells them apart. It is empty if nothing changed or if a
side of the edit could not be analyzed. A change of any kind is reported with a finding, whether something
depends on it or not.
-/

namespace ApiImpact

/-! ## Every change has a finding -/

/-- A change that is not empty has a finding, if what it lists as modified changed inside. -/
theorem Finding.all_ne_nil {change : SurfaceChange} (hmodified : ∀ m ∈ change.symbols.modified, m.changes ≠ [])
    (h : change.isEmpty = false) : all change ≠ [] := by
  intro hall
  simp only [all, List.append_eq_nil_iff, List.map_eq_nil_iff, List.flatMap_eq_nil_iff] at hall
  obtain ⟨⟨⟨⟨⟨⟨⟨hremoved, hadded⟩, hchanges⟩, hgone⟩, hchanged⟩, hnew⟩, hpackage⟩, hsystem⟩ := hall
  have hmodified : change.symbols.modified = [] :=
    List.eq_nil_iff_forall_not_mem.mpr fun m hm => hmodified m hm (hchanges m hm)
  have hsystem : change.moduleSystem = none := by
    cases hs : change.moduleSystem <;> simp_all
  simp [SurfaceChange.isEmpty, SymbolChanges.isEmpty, ExportChanges.isEmpty, *] at h

theorem Finding.all_between_ne_nil {threshold : UInt8} {before after : Snapshot}
    (h : (SurfaceChange.between threshold before after).isEmpty = false) :
    all (SurfaceChange.between threshold before after) ≠ [] :=
  all_ne_nil (fun _ hm => SurfaceChange.changes_ne_nil hm) h

theorem Finding.reported_ne_nil {typed : Bool} {findings : List Finding} (h : findings ≠ []) :
    reported typed findings ≠ [] := by
  obtain ⟨f, hf⟩ := List.exists_mem_of_ne_nil findings h
  obtain ⟨g, hg, -⟩ := Finding.exists_mem_reported typed hf
  exact List.ne_nil_of_mem hg

namespace ImpactReport

/-! ## Reports that say nothing -/

/-- The report lists nothing and counts nothing. -/
structure IsBlank (report : ImpactReport) : Prop where
  functions : report.functions = []
  classes : report.classes = []
  downstreamFiles : report.downstreamFiles = []
  downstreamLines : report.downstreamLines = []
  tests : report.tests = []
  findings : report.findings = []
  impactedSymbols : report.impactedSymbols = []
  count (severity : Severity) : report.count severity = 0
  summary : report.summaryToJson = .object [("breaking", .nat 0), ("warnings", .nat 0), ("info", .nat 0),
    ("downstreamFiles", .nat 0), ("tests", .nat 0)]

theorem isBlank_of_status (sourceFile : String) (status : ReportStatus) :
    IsBlank { sourceFile, status } :=
  ⟨rfl, rfl, rfl, rfl, rfl, rfl, rfl, fun _ => rfl, rfl⟩

variable {sourceFile : String} {change : SurfaceChange} {root : Path} {dependents : List Dependent}
  {tests : List AffectedTest}

theorem linesOf_eq_nil_iff : linesOf root dependents = [] ↔ dependents = [] := by
  rw [← List.map_eq_nil_iff (f := (·.1)), List.eq_nil_iff_forall_not_mem]
  simp only [mem_map_fst_linesOf]
  rw [← List.eq_nil_iff_forall_not_mem, List.map_eq_nil_iff]

/-- The lists of the report on a change are empty when nothing is known to depend on it. -/
theorem status_of (h : change.isEmpty = false) :
    let report := ImpactReport.of sourceFile change root dependents tests
    report.status = if report.downstreamFiles = [] ∧ report.downstreamLines = [] ∧ report.tests = []
      then .noProvenDependencies else .impacted := by
  intro report
  have hlists : (report.downstreamFiles = [] ∧ report.downstreamLines = [] ∧ report.tests = []) ↔
      (dependents.isEmpty && tests.isEmpty) = true := by
    simp only [report, ImpactReport.of, h, Bool.false_eq_true, if_false, linesOf_eq_nil_iff, List.map_eq_nil_iff,
      Bool.and_eq_true, List.isEmpty_iff]
    constructor
    · exact fun hnone => hnone.2
    · rintro ⟨rfl, rfl⟩
      exact ⟨rfl, rfl, rfl⟩
  simp only [hlists]
  simp [report, ImpactReport.of, h]

end ImpactReport

namespace Edit

variable {tree : FileTree} {graph : ImportGraph} {settings : Settings} {edit : Edit} {report : ImpactReport}
  {before after : Snapshot}

/-- The snapshots of the two sides of an edit. -/
structure Shows (settings : Settings) (graph : ImportGraph) (edit : Edit) (before after : Snapshot) : Prop where
  before : Snapshot.capture settings (Path.display graph.root edit.file) edit.before edit.manifestBefore = .ok before
  after : Snapshot.capture settings (Path.display graph.root edit.file) edit.after edit.manifestAfter = .ok after

/-- How an analysis ends. -/
inductive EndsIn (settings : Settings) (graph : ImportGraph) (edit : Edit) : ImpactReport → Prop
  | identity (h : edit.isIdentity = true) :
    EndsIn settings graph edit { sourceFile := Path.display graph.root edit.file, status := .unchanged }
  | failure {before after : Snapshot} (h : edit.isIdentity = false) (hshows : edit.Shows settings graph before after)
    (hfailed : before.isFailed = true ∨ after.isFailed = true) :
    EndsIn settings graph edit { sourceFile := Path.display graph.root edit.file, status := .unanalyzable }
  | agreement {before after : Snapshot} (h : edit.isIdentity = false)
    (hshows : edit.Shows settings graph before after)
    (hanalyzed : before.isFailed = false ∧ after.isFailed = false)
    (hempty : (SurfaceChange.between settings.pairingThreshold before after).isEmpty = true) :
    EndsIn settings graph edit { sourceFile := Path.display graph.root edit.file, status := .unchanged }
  | change {before after : Snapshot} (h : edit.isIdentity = false)
    (hshows : edit.Shows settings graph before after)
    (hanalyzed : before.isFailed = false ∧ after.isFailed = false)
    (hchange : (SurfaceChange.between settings.pairingThreshold before after).isEmpty = false)
    {dependents : List Dependent} {tests : List AffectedTest} :
    EndsIn settings graph edit (.of (Path.display graph.root edit.file)
      (.between settings.pairingThreshold before after) graph.root dependents tests)

theorem endsIn_of_analyze (h : edit.analyze tree graph settings = .ok report) :
    EndsIn settings graph edit report := by
  unfold analyze at h
  split at h
  · rename_i hidentity
    cases h
    exact .identity hidentity
  rename_i hidentity
  have hidentity := Bool.eq_false_iff.mpr hidentity
  obtain ⟨before, hbefore, h⟩ := bind_eq_ok_iff.mp h
  obtain ⟨after, hafter, h⟩ := bind_eq_ok_iff.mp h
  have hshows : edit.Shows settings graph before after := ⟨hbefore, hafter⟩
  split at h
  · rename_i hfailed
    cases h
    exact .failure hidentity hshows (by simpa using hfailed)
  rename_i hanalyzed
  have hanalyzed : before.isFailed = false ∧ after.isFailed = false := by simpa using hanalyzed
  dsimp only at h
  split at h
  · rename_i hempty
    cases h
    exact .agreement hidentity hshows hanalyzed hempty
  · rename_i hchange
    obtain ⟨tests, -, h⟩ := bind_eq_ok_iff.mp h
    cases h
    exact .change hidentity hshows hanalyzed (Bool.eq_false_iff.mpr hchange)

theorem Shows.unique {before' after' : Snapshot} (h : edit.Shows settings graph before after)
    (h' : edit.Shows settings graph before' after') : before' = before ∧ after' = after :=
  ⟨Except.ok.inj (h'.before.symm.trans h.before), Except.ok.inj (h'.after.symm.trans h.after)⟩

theorem isIdentity_iff :
    edit.isIdentity = true ↔ edit.before = edit.after ∧ edit.manifestBefore = edit.manifestAfter := by
  simp [isIdentity]

/-- Both sides of the edit could be analyzed, and they show the same surface. -/
def ShowsNoChange (settings : Settings) (graph : ImportGraph) (edit : Edit) : Prop :=
  ∃ before after, edit.Shows settings graph before after ∧ before.isFailed = false ∧ after.isFailed = false ∧
    (SurfaceChange.between settings.pairingThreshold before after).isEmpty = true

/-- A side of the edit could not be analyzed. -/
def ShowsFailure (settings : Settings) (graph : ImportGraph) (edit : Edit) : Prop :=
  ∃ before after, edit.Shows settings graph before after ∧ (before.isFailed = true ∨ after.isFailed = true)

theorem EndsIn.unchanged_iff (h : EndsIn settings graph edit report) :
    report.status = .unchanged ↔ edit.isIdentity = true ∨ edit.ShowsNoChange settings graph := by
  cases h with
  | identity h => exact iff_of_true rfl (.inl h)
  | agreement h hshows hanalyzed hempty =>
      exact iff_of_true rfl (.inr ⟨_, _, hshows, hanalyzed.1, hanalyzed.2, hempty⟩)
  | failure h hshows hfailed =>
      refine iff_of_false nofun ?_
      rintro (hidentity | ⟨before', after', hshows', hbefore, hafter, -⟩)
      · simp [h] at hidentity
      · obtain ⟨rfl, rfl⟩ := hshows.unique hshows'
        simp [hbefore, hafter] at hfailed
  | change h hshows hanalyzed hchange =>
      refine iff_of_false ?_ ?_
      · rw [ImpactReport.status_of hchange]
        split <;> nofun
      · rintro (hidentity | ⟨before', after', hshows', -, -, hempty⟩)
        · simp [h] at hidentity
        · obtain ⟨rfl, rfl⟩ := hshows.unique hshows'
          simp [hempty] at hchange

theorem EndsIn.unanalyzable_iff (h : EndsIn settings graph edit report) :
    report.status = .unanalyzable ↔ edit.isIdentity = false ∧ edit.ShowsFailure settings graph := by
  have hanalyzed {before after : Snapshot} (hshows : edit.Shows settings graph before after)
      (hanalyzed : before.isFailed = false ∧ after.isFailed = false) : ¬edit.ShowsFailure settings graph := by
    rintro ⟨before', after', hshows', hfailed⟩
    obtain ⟨rfl, rfl⟩ := hshows.unique hshows'
    simp [hanalyzed] at hfailed
  cases h with
  | identity h => exact iff_of_false nofun fun hdiffers => by simp [h] at hdiffers
  | failure h hshows hfailed => exact iff_of_true rfl ⟨h, _, _, hshows, hfailed⟩
  | agreement h hshows hboth => exact iff_of_false nofun fun hfailure => hanalyzed hshows hboth hfailure.2
  | change h hshows hboth hchange =>
      refine iff_of_false ?_ fun hfailure => hanalyzed hshows hboth hfailure.2
      rw [ImpactReport.status_of hchange]
      split <;> nofun

theorem EndsIn.isBlank (h : EndsIn settings graph edit report)
    (hstatus : report.status = .unchanged ∨ report.status = .unanalyzable) : report.IsBlank := by
  cases h with
  | change h hshows hanalyzed hchange =>
      rw [ImpactReport.status_of hchange] at hstatus
      split at hstatus <;> simp at hstatus
  | _ => exact ImpactReport.isBlank_of_status _ _

theorem EndsIn.of_change (h : EndsIn settings graph edit report) (hu : report.status ≠ .unchanged)
    (ha : report.status ≠ .unanalyzable) : report.findings ≠ [] ∧
      report.status = if report.downstreamFiles = [] ∧ report.downstreamLines = [] ∧ report.tests = []
        then .noProvenDependencies else .impacted := by
  cases h with
  | change h hshows hanalyzed hchange =>
      refine ⟨?_, ImpactReport.status_of hchange⟩
      rw [ImpactReport.findings_of]
      exact Finding.reported_ne_nil (Finding.all_between_ne_nil hchange)
  | failure => exact absurd rfl ha
  | _ => exact absurd rfl hu

/-- The status of a report tells how the analysis ended. A report that nothing changed, or that a side could
not be analyzed, is blank. Every other report has a finding, and its status tells whether it lists a file. -/
theorem status_tells_outcome (h : edit.analyze tree graph settings = .ok report) :
    (report.status = .unchanged ↔
      edit.before = edit.after ∧ edit.manifestBefore = edit.manifestAfter ∨ edit.ShowsNoChange settings graph) ∧
    (report.status = .unanalyzable ↔
      ¬(edit.before = edit.after ∧ edit.manifestBefore = edit.manifestAfter) ∧ edit.ShowsFailure settings graph) ∧
    (report.status = .unchanged ∨ report.status = .unanalyzable → report.IsBlank) ∧
    (report.status ≠ .unchanged → report.status ≠ .unanalyzable →
      report.findings ≠ [] ∧
      (report.status = .noProvenDependencies ↔
        report.downstreamFiles = [] ∧ report.downstreamLines = [] ∧ report.tests = []) ∧
      (report.status = .impacted ↔
        ¬(report.downstreamFiles = [] ∧ report.downstreamLines = [] ∧ report.tests = []))) := by
  have hends := endsIn_of_analyze h
  rw [← isIdentity_iff, Bool.not_eq_true]
  refine ⟨hends.unchanged_iff, hends.unanalyzable_iff, hends.isBlank, fun hu ha => ?_⟩
  obtain ⟨hfindings, hstatus⟩ := hends.of_change hu ha
  refine ⟨hfindings, ?_, ?_⟩ <;> rw [hstatus] <;> split <;> simp [*]

/-- A file that another one imports is emptied. -/
theorem status_tells_outcome_of_emptied :
    let tree := FileTree.ofTexts [("/p/a.js", "import './f';\n"), ("/p/f.js", "export const f = 1;\n")]
    let edit : Edit :=
      { path := .ofString "f.js", before := "export const f = 1;\n", after := "", root := .ofString "/p" }
    ∃ graph report, ImportGraph.build? tree {} (.ofString "/p") = some graph ∧
      edit.analyze tree graph {} = .ok report ∧ report.status = .impacted ∧ report.findings ≠ [] ∧
      ¬(report.downstreamFiles = [] ∧ report.downstreamLines = [] ∧ report.tests = []) := by
  intro tree edit
  have hsome : (ImportGraph.build? tree {} (.ofString "/p")).isSome = true := by decide +kernel
  let graph := (ImportGraph.build? tree {} (.ofString "/p")).getD {}
  have hg : ImportGraph.build? tree {} (.ofString "/p") = some graph := by
    rw [← Option.some_get hsome, Option.get_eq_getD]
  have hanalyze : (edit.analyze tree graph {}).toOption.map (·.status) = some .impacted := by
    decide +kernel
  cases hreport : edit.analyze tree graph {} with
  | error cause => simp [hreport, Except.toOption] at hanalyze
  | ok report =>
      have hstatus : report.status = .impacted := by simpa [hreport, Except.toOption] using hanalyze
      obtain ⟨-, -, -, hchange⟩ := status_tells_outcome hreport
      obtain ⟨hfindings, -, himpacted⟩ := hchange (by simp [hstatus]) (by simp [hstatus])
      exact ⟨graph, report, hg, hreport, hstatus, hfindings, himpacted.mp hstatus⟩

end Edit

end ApiImpact
