import Mathlib.Data.List.Forall2
import ApiImpact.CommandLine.Run
import ApiImpact.Proofs.Impact.Outcome
import ApiImpact.Proofs.Change.Extension

/-!
# Where a change of the package is reported

The manifest of the package is compared once for a run, after the files. The reports on the files never speak
of the package: their edits carry no manifests. The report on the manifest speaks of nothing else, and there
is one only if the package exposes nothing any more or has another type.
-/

namespace ApiImpact

/-! ## Runs over a list -/

theorem mapError_eq_ok_iff {ε ε' α : Type} {x : Except ε α} {f : ε → ε'} {a : α} :
    x.mapError f = .ok a ↔ x = .ok a := by
  cases x <;> simp [Except.mapError]

/-- A run over a list has one result for each entry. -/
theorem forall₂_of_mapM {ε α β : Type} {f : α → Except ε β} {xs : List α} {ys : List β}
    (h : xs.mapM f = .ok ys) : List.Forall₂ (fun x y => f x = .ok y) xs ys := by
  induction xs generalizing ys with
  | nil =>
      cases h
      exact .nil
  | cons x xs ih =>
      rw [List.mapM_cons] at h
      obtain ⟨y, hy, h⟩ := bind_eq_ok_iff.mp h
      obtain ⟨rest, hrest, h⟩ := bind_eq_ok_iff.mp h
      cases h
      exact .cons hy (ih hrest)

theorem forall₂_comp {α β γ : Type} {R : α → β → Prop} {S : β → γ → Prop} {T : α → γ → Prop} {xs : List α}
    {ys : List β} {zs : List γ} (hR : List.Forall₂ R xs ys) (hS : List.Forall₂ S ys zs)
    (hT : ∀ x y z, R x y → S y z → T x z) : List.Forall₂ T xs zs := by
  induction hR generalizing zs with
  | nil =>
      cases hS
      exact .nil
  | cons hx _ ih =>
      cases hS with
      | cons hy hrest => exact .cons (hT _ _ _ hx hy) (ih hrest)

/-! ## Changes of the package -/

/-- The rule is about the package. -/
def Rule.IsOnPackage (rule : Rule) : Prop :=
  rule = .packageExportsRemoved ∨ rule = .packageTypeChanged

/-- Both texts are manifests, and the package lost all its entry points or has another type. -/
def Manifest.ChangesPackage (before after : Option String) : Prop :=
  ∃ old new, before.bind parse? = some old ∧ after.bind parse? = some new ∧
    (old.hasEntryPoints = true ∧ new.hasEntryPoints = false ∨ old.effectiveType ≠ new.effectiveType)

/-! ## Findings about the package -/

namespace Finding

variable {change : SurfaceChange} {findings : List Finding} {f : Finding} {typed : Bool}

theorem not_isOnPackage_judge (typed : Bool) (owner : String) (c : DeclarationChange) :
    ¬(judge typed owner c).rule.IsOnPackage := by
  cases c with
  | parameters c => cases c <;> simp [judge, judgeParameters, Callable.rule, Rule.IsOnPackage]
  | constructor c => cases c <;> simp [judge, judgeParameters, Callable.rule, Rule.IsOnPackage]
  | asyncChanged nowAsync => cases nowAsync <;> simp [judge, Rule.IsOnPackage]
  | _ => simp [judge, Rule.IsOnPackage]

/-- Findings about the package come from changes of the package. -/
theorem not_isOnPackage_of_mem_all (hf : f ∈ all change) (h : change.package = []) : ¬f.rule.IsOnPackage := by
  rcases mem_all_iff.mp hf with ⟨s, -, rfl⟩ | ⟨s, -, rfl⟩ | ⟨m, -, c, -, rfl⟩ | ⟨r, -, rfl⟩ | ⟨m, -, rfl⟩ |
    ⟨e, -, rfl⟩ | ⟨c, hc, -⟩ | ⟨c, -, rfl⟩
  · cases hk : s.kind <;> simp [Rule.IsOnPackage, ofRemovedSymbol, removalRule, hk]
  · simp [Rule.IsOnPackage, ofAddedSymbol]
  · exact not_isOnPackage_judge change.typed m.after.name c
  · simp only [Rule.IsOnPackage, ofRemovedExport, RemovedExport.rule]
    split_ifs <;> simp
  · cases ht : m.transition <;> simp [Rule.IsOnPackage, ofModifiedExport, ModifiedExport.rule, ht]
  · simp [Rule.IsOnPackage, ofAddedExport]
  · simp [h] at hc
  · simp [Rule.IsOnPackage, ofModuleSystemChange]

/-- The symbol that findings under a rule about the package are filed under. -/
def packageSymbol (rule : Rule) : String :=
  if rule = .packageExportsRemoved then "package.json#exports" else "package.json#type"

theorem ofPackageChange_spec (c : PackageChange) : (ofPackageChange c).rule.IsOnPackage ∧
    (ofPackageChange c).severity = .breaking ∧ (ofPackageChange c).symbol = packageSymbol (ofPackageChange c).rule := by
  cases c <;> simp [ofPackageChange, Rule.IsOnPackage, packageSymbol]

theorem nodup_map_symbol_reported : ((reported typed findings).map (·.symbol)).Nodup := by
  rw [map_symbol_reported, map_symbol_best]
  exact Std.ExtTreeMap.nodup_keys

end Finding

theorem PackageChange.between_ne_nil_iff {before after : Option String} :
    between (before.bind Manifest.parse?) (after.bind Manifest.parse?) ≠ [] ↔ Manifest.ChangesPackage before after := by
  unfold Manifest.ChangesPackage
  cases before.bind Manifest.parse? with
  | none => simp [between]
  | some old =>
      cases after.bind Manifest.parse? with
      | none => simp [between]
      | some new =>
          by_cases hlost : old.hasEntryPoints = true ∧ new.hasEntryPoints = false <;>
            by_cases htype : old.effectiveType = new.effectiveType <;>
              simp [between, ofEntryPoints, ofTypes, hlost, htype]

/-! ## The report on the manifest -/

/-- The report is about a change of the package: each of its findings is breaking, under a rule about the
package, and the only one under that rule. -/
structure ImpactReport.IsOnPackage (report : ImpactReport) : Prop where
  rules : ∀ f ∈ report.findings, f.rule.IsOnPackage
  breaking : ∀ f ∈ report.findings, f.severity = .breaking
  nodup : (report.findings.map (·.rule)).Nodup
  changed : report.findings ≠ []

namespace ImpactReport

variable {file : String} {before after : Option String}

theorem sourceFile_ofManifests : (ofManifests file before after).sourceFile = file := by
  unfold ofManifests ImpactReport.of
  split
  · rfl
  · dsimp only
    split <;> rfl

theorem status_ofManifests :
    (ofManifests file before after).status = .unchanged ↔ ¬Manifest.ChangesPackage before after := by
  rw [← PackageChange.between_ne_nil_iff, not_not, ofManifests]
  split_ifs with he
  · simp [he, PackageChange.between_self]
  · by_cases hchange : PackageChange.between (before.bind Manifest.parse?) (after.bind Manifest.parse?) = [] <;>
      simp [ImpactReport.of, SurfaceChange.isEmpty, SymbolChanges.isEmpty, ExportChanges.isEmpty, hchange]

theorem isOnPackage_ofManifests (h : Manifest.ChangesPackage before after) :
    (ofManifests file before after).IsOnPackage := by
  have hne : before ≠ after := by
    rintro rfl
    exact PackageChange.between_ne_nil_iff.mpr h (PackageChange.between_self _)
  have hfindings : (ofManifests file before after).findings = Finding.reported false
      ((PackageChange.between (before.bind Manifest.parse?) (after.bind Manifest.parse?)).map
        Finding.ofPackageChange) := by
    rw [ofManifests, if_neg hne, findings_of]
    simp [Finding.all]
  have hpackage : ∀ f ∈ (ofManifests file before after).findings,
      f.rule.IsOnPackage ∧ f.severity = .breaking ∧ f.symbol = Finding.packageSymbol f.rule := by
    intro f hf
    rw [hfindings] at hf
    obtain ⟨kept, hk, rfl, -⟩ := Finding.exists_of_mem_reported hf
    obtain ⟨c, -, rfl⟩ := List.mem_map.mp hk
    simpa using Finding.ofPackageChange_spec c
  refine ⟨fun f hf => (hpackage f hf).1, fun f hf => (hpackage f hf).2.1, ?_, ?_⟩
  · -- The symbols of the findings differ, and the rule decides on the symbol.
    have hsymbols : ((ofManifests file before after).findings.map (·.rule)).map Finding.packageSymbol =
        (ofManifests file before after).findings.map (·.symbol) := by
      rw [List.map_map]
      exact List.map_congr_left fun f hf => (hpackage f hf).2.2.symm
    refine List.Nodup.of_map Finding.packageSymbol ?_
    rw [hsymbols, hfindings]
    exact Finding.nodup_map_symbol_reported
  · rw [hfindings]
    exact Finding.reported_ne_nil (by simpa using PackageChange.between_ne_nil_iff.mpr h)

end ImpactReport

/-! ## The reports on the files -/

namespace Edit

variable {tree : FileTree} {graph : ImportGraph} {settings : Settings} {edit : Edit} {report : ImpactReport}

theorem EndsIn.sourceFile (h : EndsIn settings graph edit report) :
    report.sourceFile = Path.display graph.root edit.file := by
  cases h with
  | change h hshows hanalyzed hchange => simp [ImpactReport.of, hchange]
  | _ => rfl

/-- The report on an edit without manifests does not speak of the package. -/
theorem EndsIn.not_isOnPackage (h : EndsIn settings graph edit report) (hbefore : edit.manifestBefore = none)
    (hafter : edit.manifestAfter = none) : ∀ f ∈ report.findings, ¬f.rule.IsOnPackage := by
  cases h with
  | @change before after _ hshows hanalyzed hchange =>
      have hmanifest : before.manifest = none ∧ after.manifest = none := by
        obtain ⟨hcapture, hcapture'⟩ := hshows
        rw [hbefore] at hcapture
        rw [hafter] at hcapture'
        obtain ⟨surface, -, hcapture⟩ := bind_eq_ok_iff.mp hcapture
        obtain ⟨surface', -, hcapture'⟩ := bind_eq_ok_iff.mp hcapture'
        cases hcapture
        cases hcapture'
        exact ⟨rfl, rfl⟩
      have hpackage : (SurfaceChange.between settings.pairingThreshold before after).package = [] := by
        unfold SurfaceChange.between
        split
        · simp [hmanifest, PackageChange.between]
        · rfl
      intro f hf
      rw [ImpactReport.findings_of] at hf
      obtain ⟨kept, hk, rfl, -⟩ := Finding.exists_of_mem_reported hf
      rw [Finding.rule_disclaim]
      exact Finding.not_isOnPackage_of_mem_all hk hpackage
  | _ => simp

end Edit

/-! ## A run -/

namespace AnalyzeRequest

open Workspace

variable {request : AnalyzeRequest} {workspace : Workspace} {project : Project} {root file : Path}
  {report : ImpactReport} {reports : List ImpactReport} {result : CommandResult}

/-- The report is that on the change of `file`. -/
structure IsReportOn (request : AnalyzeRequest) (workspace : Workspace) (project : Project) (file : Path)
    (report : ImpactReport) : Prop where
  sourceFile : report.sourceFile = Path.display project.graph.root (project.root.join file).normalize
  analyzed : ∃ edit, request.edit workspace project.root file = .ok edit ∧
    edit.analyze workspace.tree project.graph project.settings = .ok report

/-- The texts of the manifest that a request compares. -/
structure Compares (request : AnalyzeRequest) (workspace : Workspace) (root : Path)
    (before after : Option String) : Prop where
  present : presentText workspace (root.join (.ofString manifestFile)) = .ok after
  past : if request.before.isSome then before = after
    else request.textAtRevision workspace root (root.join (.ofString manifestFile)) = .ok before

/-- The edit of a file starts at the root of the project, and has no manifests. -/
theorem edit_spec {edit : Edit} (h : request.edit workspace root file = .ok edit) :
    edit.path = file ∧ edit.root = root ∧ edit.manifestBefore = none ∧ edit.manifestAfter = none := by
  unfold AnalyzeRequest.edit at h
  dsimp only at h
  split at h <;> obtain ⟨before, -, h⟩ := bind_eq_ok_iff.mp h <;>
    split at h <;> obtain ⟨after, -, h⟩ := bind_eq_ok_iff.mp h <;>
      (cases h; exact ⟨rfl, rfl, rfl, rfl⟩)

theorem isReportOn_of_analyze {edit : Edit} (hedit : request.edit workspace project.root file = .ok edit)
    (h : edit.analyze workspace.tree project.graph project.settings = .ok report) :
    request.IsReportOn workspace project file report := by
  obtain ⟨hpath, hroot, -⟩ := edit_spec hedit
  refine ⟨?_, edit, hedit, h⟩
  rw [(Edit.endsIn_of_analyze h).sourceFile, Edit.file, hpath, hroot]

theorem IsReportOn.not_isOnPackage (h : request.IsReportOn workspace project file report) :
    ∀ f ∈ report.findings, ¬f.rule.IsOnPackage := by
  obtain ⟨edit, hedit, hanalyze⟩ := h.analyzed
  obtain ⟨-, -, hbefore, hafter⟩ := edit_spec hedit
  exact (Edit.endsIn_of_analyze hanalyze).not_isOnPackage hbefore hafter

theorem exists_compares (h : request.manifestReport workspace root = .ok report) :
    ∃ before after, request.Compares workspace root before after ∧
      report = .ofManifests manifestFile before after := by
  obtain ⟨after, hafter, h⟩ := bind_eq_ok_iff.mp h
  dsimp only at h
  split at h
  · rename_i hgiven
    cases h
    exact ⟨after, after, ⟨hafter, by simp [hgiven]⟩, rfl⟩
  · rename_i hgiven
    obtain ⟨before, hbefore, h⟩ := bind_eq_ok_iff.mp h
    cases h
    exact ⟨before, after, ⟨hafter, by simpa [hgiven] using hbefore⟩, rfl⟩

/-- The reports of a run: one on each file, and what there is to report on the manifest. -/
structure Reports (request : AnalyzeRequest) (workspace : Workspace) (project : Project) (files : List Path)
    (perFile own : List ImpactReport) : Prop where
  opened : workspace.openProject request.root = .ok project
  targets : request.targets workspace project.root = .ok files
  each : List.Forall₂ (request.IsReportOn workspace project) files perFile
  manifest : ∃ before after, request.Compares workspace project.root before after ∧
    own = if (ImpactReport.ofManifests manifestFile before after).status = .unchanged then []
      else [.ofManifests manifestFile before after]

theorem exists_reports (h : request.reports workspace = .ok reports) :
    ∃ project files perFile own, Reports request workspace project files perFile own ∧ reports = perFile ++ own := by
  unfold AnalyzeRequest.reports at h
  split at h
  · cases h
  obtain ⟨project, hproject, h⟩ := bind_eq_ok_iff.mp h
  obtain ⟨files, hfiles, h⟩ := bind_eq_ok_iff.mp h
  obtain ⟨edits, hedits, h⟩ := bind_eq_ok_iff.mp h
  obtain ⟨perFile, hperFile, h⟩ := bind_eq_ok_iff.mp h
  obtain ⟨manifest, hmanifest, h⟩ := bind_eq_ok_iff.mp h
  cases h
  obtain ⟨before, after, hcompares, rfl⟩ := exists_compares hmanifest
  refine ⟨project, files, perFile, _, ⟨hproject, hfiles, ?_, before, after, hcompares, rfl⟩, ?_⟩
  · exact forall₂_comp (forall₂_of_mapM hedits) (forall₂_of_mapM hperFile) fun file edit report hedit hanalyze =>
      isReportOn_of_analyze hedit (mapError_eq_ok_iff.mp hanalyze)
  · split <;> simp

/-- What a run gives: the reports, printed or written, and whether one of them is breaking. -/
theorem exists_reports_of_run (h : request.run workspace = .ok result) : ∃ reports,
    request.reports workspace = .ok reports ∧
    (request.output = none → result.printed = render reports request.format) ∧
    (∀ path, request.output = some path → result.written = some (path, render reports request.format)) ∧
    result.foundBreaking = (request.failOnBreaking && reports.any ImpactReport.hasBreaking) := by
  obtain ⟨reports, hreports, h⟩ := bind_eq_ok_iff.mp h
  refine ⟨reports, hreports, ?_⟩
  dsimp only at h
  split at h
  · rename_i houtput
    cases h
    exact ⟨fun _ => rfl, fun path hpath => by simp [houtput] at hpath, rfl⟩
  · rename_i path houtput
    obtain ⟨_, -, h⟩ := bind_eq_ok_iff.mp h
    cases h
    exact ⟨fun hnone => by simp [houtput] at hnone, fun path' hpath => by simp_all, rfl⟩

/-- A run reports on each of its files in turn, and then at most once on the manifest of the package. Only that
last report speaks of the package and it speaks of nothing else; it is there just when both texts of the
manifest can be read and the package changed. The run ends in alarm, if asked to, just when some finding of
some report is breaking. -/
theorem package_reported_once (h : request.run workspace = .ok result) :
    ∃ project files perFile own before after,
      workspace.openProject request.root = .ok project ∧
      request.targets workspace project.root = .ok files ∧
      List.Forall₂ (request.IsReportOn workspace project) files perFile ∧
      request.Compares workspace project.root before after ∧
      (request.output = none → result.printed = render (perFile ++ own) request.format) ∧
      (∀ path, request.output = some path →
        result.written = some (path, render (perFile ++ own) request.format)) ∧
      (∀ report ∈ perFile, ∀ f ∈ report.findings, ¬f.rule.IsOnPackage) ∧
      own.length ≤ 1 ∧
      (∀ report ∈ own, report.sourceFile = manifestFile ∧ report.IsOnPackage) ∧
      (own ≠ [] ↔ Manifest.ChangesPackage before after) ∧
      (result.foundBreaking = true ↔
        request.failOnBreaking = true ∧ ∃ report ∈ perFile ++ own, ∃ f ∈ report.findings, f.severity = .breaking) := by
  obtain ⟨reports, hreports, hprinted, hwritten, hbreaking⟩ := exists_reports_of_run h
  obtain ⟨project, files, perFile, own, hspec, rfl⟩ := exists_reports hreports
  obtain ⟨before, after, hcompares, hown⟩ := hspec.manifest
  have heach : List.Forall₂ (fun report file => (∀ f ∈ report.findings, ¬f.rule.IsOnPackage) ∧
      request.IsReportOn workspace project file report) perFile files :=
    .flip (hspec.each.imp fun _ _ hreport => ⟨hreport.not_isOnPackage, hreport⟩)
  refine ⟨project, files, perFile, own, before, after, hspec.opened, hspec.targets, hspec.each, hcompares, hprinted,
    hwritten, ((List.forall₂_and_left perFile files).mp heach).1, ?_, fun report hm => ?_, ?_, ?_⟩
  · rw [hown]
    split <;> simp
  · rw [hown] at hm
    split at hm
    · cases hm
    · rename_i hchanged
      rw [ImpactReport.status_ofManifests, not_not] at hchanged
      rw [List.mem_singleton.mp hm]
      exact ⟨ImpactReport.sourceFile_ofManifests, ImpactReport.isOnPackage_ofManifests hchanged⟩
  · rw [hown]
    split
    · rename_i hsame
      exact iff_of_false (not_not.mpr rfl) (ImpactReport.status_ofManifests.mp hsame)
    · rename_i hchanged
      rw [ImpactReport.status_ofManifests, not_not] at hchanged
      exact iff_of_true (List.cons_ne_nil _ _) hchanged
  · rw [hbreaking, Bool.and_eq_true, List.any_eq_true]
    simp only [ImpactReport.hasBreaking_iff]

/-- A file and the type of the package change. -/
theorem package_reported_once_of_type :
    let workspace : Workspace :=
      { tree := .ofTexts [("/f.js", "export const f = 1;\n"), ("/package.json", "\x7b\"type\":\"module\"\x7d")]
        history := { texts := [(("HEAD", "f.js"), "export const f = 2;\n"), (("HEAD", "package.json"), "\x7b\x7d")] } }
    let request : AnalyzeRequest := { files := ["f.js"], failOnBreaking := true }
    ∃ result project files, ∃ perFile own : List ImpactReport, request.run workspace = .ok result ∧
      workspace.openProject request.root = .ok project ∧ request.targets workspace project.root = .ok files ∧
      List.Forall₂ (request.IsReportOn workspace project) files perFile ∧
      (∀ report ∈ perFile, ∀ f ∈ report.findings, ¬f.rule.IsOnPackage) ∧ own.length ≤ 1 ∧
      ∃ report ∈ perFile ++ own, ∃ f ∈ report.findings, f.severity = .breaking := by
  intro workspace request
  have hbreaking : (request.run workspace).toOption.map (·.foundBreaking) = some true := by decide +kernel
  cases hrun : request.run workspace with
  | error cause => simp [hrun, Except.toOption] at hbreaking
  | ok result =>
      have hbreaking : result.foundBreaking = true := by simpa [hrun, Except.toOption] using hbreaking
      obtain ⟨project, files, perFile, own, -, -, hproject, hfiles, heach, -, -, -, hperFile, hown, -, -, halarm⟩ :=
        package_reported_once hrun
      exact ⟨result, project, files, perFile, own, rfl, hproject, hfiles, heach, hperFile, hown,
        (halarm.mp hbreaking).2⟩

end AnalyzeRequest

end ApiImpact
