import ApiImpact.Impact.Analysis
import ApiImpact.Proofs.Impact.Dependents
import ApiImpact.Proofs.Project.Rebuild
import ApiImpact.Proofs.Result

/-!
# Importers of a deleted file

The graph has no edge to a file that is not there, whoever still asks for it. So the report on a file
says which files import it as long as the file exists, and says nothing about them once it is deleted.
-/

namespace ApiImpact

namespace ImportGraph

variable {tree after : FileTree} {graph : ImportGraph} {settings : Settings}
  {root changed importer : Path} {names : List String}

theorem Drawn.notMem_importsOf (h : graph.Drawn tree) (hn : changed.IsNormal)
    (hgone : tree.isFile changed = false) (importer : Path) : changed ∉ graph.importsOf importer := by
  rw [mem_importsOf_iff]
  intro hm
  have hne : graph.entry importer ≠ .absent := by
    intro he
    simp [he] at hm
  rw [h.entry_eq importer hne, FileEntry.mem_targets_ofFile_iff] at hm
  obtain ⟨-, reference, -, hres⟩ := hm
  exact (FileTree.isFile_eq_false_iff hn).mp hgone (Resolution.mem_files_of_resolve hres)

/-- A walk finds the same files after one was changed or deleted, the file itself apart. -/
theorem Finds.of_agreesOff (h : Finds tree settings root importer) (hw : tree.IsWritten)
    (hagree : tree.AgreesOff after [changed]) (hne : importer ≠ changed)
    (hfile : changed ∈ tree.files) : Finds after settings root importer where
  stored := (hagree.mem_iff (by simpa using hne)).mp h.stored
  source := h.source
  single := by
    have hn := hw.isNormal h.stored
    have hsingle := h.single
    rw [Bool.eq_false_iff] at hsingle ⊢
    refine fun hd => hsingle ?_
    rw [FileTree.isDirectory_iff hn] at hd ⊢
    obtain ⟨file, hm, hother, hp⟩ := hd
    refine ⟨file, ?_, hother, hp⟩
    by_cases he : file = changed
    · rwa [he]
    · exact (hagree.mem_iff (by simpa using he)).mpr hm
  walked := h.walked
  opened := fun directory hd hd' hne => by
    rw [FileTree.isDenied, hagree.denied]
    exact h.opened directory hd hd' hne

theorem Chain.exists_direct {n : Nat} {file : Path} (h : Chain graph changed n file) (hpos : 0 < n) :
    ∃ importer, changed ∈ graph.importsOf importer := by
  induction h with
  | nil => omega
  | @cons n file next himport hrest ih =>
      cases hrest with
      | nil => exact ⟨file, himport⟩
      | cons => exact ih (Nat.succ_pos _)

/-- Nothing depends on a file that is gone. -/
theorem Drawn.dependents_eq_nil (h : graph.Drawn tree) (hn : changed.IsNormal)
    (hgone : tree.isFile changed = false) : graph.dependents settings changed names = [] := by
  rw [List.eq_nil_iff_forall_not_mem]
  intro dependent hm
  have hkey : dependent.path ∈ (graph.distances changed).keys := by
    rw [← map_path_dependents settings names]
    exact List.mem_map_of_mem hm
  obtain ⟨-, n, hpos, hchain⟩ := (mem_keys_distances_iff h.toMirrored).mp hkey
  obtain ⟨importer, himport⟩ := hchain.exists_direct hpos
  exact h.notMem_importsOf hn hgone importer himport

theorem Coherent.exists_mem_dependents (h : graph.Coherent) (settings : Settings) (names : List String)
    (himport : changed ∈ graph.importsOf importer) :
    ∃ dependent ∈ graph.dependents settings changed names, dependent.path = importer ∧
      dependent.isTest = isTest settings graph.root importer := by
  have hne : importer ≠ changed := by
    rintro rfl
    exact (h.sound importer).self_notMem (mem_importsOf_iff.mp himport)
  have hkey : importer ∈ (graph.distances changed).keys :=
    (mem_keys_distances_iff h.toMirrored).mpr ⟨hne, 1, Nat.one_pos, .cons himport .nil⟩
  rw [← map_path_dependents settings names] at hkey
  obtain ⟨dependent, hm, rfl⟩ := List.mem_map.mp hkey
  exact ⟨dependent, hm, rfl, (mem_dependents_iff.mp hm).2.2⟩

end ImportGraph

namespace Edit

variable {tree after : FileTree} {graph : ImportGraph} {settings : Settings} {root importer : Path}
  {edit : Edit} {report : ImpactReport}

/-- `names` are the names that the edit changes: those of what differs between the snapshots of its sides. -/
def Changes (settings : Settings) (graph : ImportGraph) (edit : Edit) (names : List String) : Prop :=
  ∃ before after,
    Snapshot.capture settings (Path.display graph.root edit.file) edit.before edit.manifestBefore = .ok before ∧
    Snapshot.capture settings (Path.display graph.root edit.file) edit.after edit.manifestAfter = .ok after ∧
    names = (SurfaceChange.between settings.pairingThreshold before after).changedNames

/-- A report on a change lists the dependents of the file and the tests it affects. -/
theorem lists_of_analyze (h : edit.analyze tree graph settings = .ok report)
    (hu : report.status ≠ .unchanged) (ha : report.status ≠ .unanalyzable) :
    ∃ names tests, edit.Changes settings graph names ∧
      graph.affectedTests tree settings edit.file names (graph.dependents settings edit.file names) = .ok tests ∧
      report.downstreamFiles = ((graph.dependents settings edit.file names).filter (!·.isTest)).map
        (fun d => Path.display graph.root d.path) ∧
      report.tests = (tests.map (·.path)).map (Path.display graph.root) ∧
      report.downstreamLines = ImpactReport.linesOf graph.root (graph.dependents settings edit.file names) := by
  unfold analyze at h
  split at h
  · cases h
    exact absurd rfl hu
  obtain ⟨before, hbefore, h⟩ := bind_eq_ok_iff.mp h
  obtain ⟨after, hafter, h⟩ := bind_eq_ok_iff.mp h
  split at h
  · cases h
    exact absurd rfl ha
  dsimp only at h
  split at h
  · cases h
    exact absurd rfl hu
  · rename_i hchange
    obtain ⟨tests, htests, h⟩ := bind_eq_ok_iff.mp h
    cases h
    refine ⟨_, tests, ⟨before, after, hbefore, hafter, rfl⟩, htests, ?_⟩
    simp [ImpactReport.of, hchange]

theorem downstreamFiles_of_analyze (h : edit.analyze tree graph settings = .ok report)
    (hu : report.status ≠ .unchanged) (ha : report.status ≠ .unanalyzable) :
    ∃ names, report.downstreamFiles =
      ((graph.dependents settings edit.file names).filter (!·.isTest)).map fun dependent =>
        Path.display graph.root dependent.path := by
  obtain ⟨names, tests, -, -, hfiles, -⟩ := lists_of_analyze h hu ha
  exact ⟨names, hfiles⟩

theorem isNormal_file (edit : Edit) : edit.file.IsNormal := Path.isNormal_normalize _

/-- The report lists an importer of the file just as long as the file exists; on a deleted file it lists
nobody. -/
theorem mem_downstreamFiles_iff_isFile {reference : ModuleReference} (hw : tree.IsWritten)
    (hw' : after.IsWritten) (hb : settings.walkBudget ≠ some 0)
    (hagree : tree.AgreesOff after [edit.file])
    (hfinds : ImportGraph.Finds tree settings root.normalize importer) (hne : importer ≠ edit.file)
    (htest : ImportGraph.isTest settings root.normalize importer = false)
    (hrefers : FileEntry.Refers tree importer reference)
    (hres : Resolution.resolve? tree importer reference.specifier = some edit.file)
    (hbuild : ImportGraph.build? after settings root = some graph)
    (hreport : edit.analyze after graph settings = .ok report)
    (hu : report.status ≠ .unchanged) (ha : report.status ≠ .unanalyzable) :
    (Path.display graph.root importer ∈ report.downstreamFiles ↔ after.isFile edit.file = true) ∧
      (after.isFile edit.file = false → report.downstreamFiles = []) := by
  obtain ⟨names, hfiles⟩ := downstreamFiles_of_analyze hreport hu ha
  have htracks := ImportGraph.tracks_of_build hw' hb hbuild
  have hdrawn := ImportGraph.drawn_of_build hw' hbuild
  have hgone (h : after.isFile edit.file = false) : report.downstreamFiles = [] := by
    rw [hfiles, hdrawn.dependents_eq_nil edit.isNormal_file h]
    rfl
  refine ⟨⟨fun hm => ?_, fun hfile => ?_⟩, hgone⟩
  · by_contra h
    rw [hgone (Bool.eq_false_iff.mpr h)] at hm
    cases hm
  · have himport : edit.file ∈ graph.importsOf importer := by
      have hfinds' := hfinds.of_agreesOff hw hagree hne (Resolution.mem_files_of_resolve hres)
      rw [ImportGraph.mem_importsOf_iff, htracks.entry_of_finds importer hfinds',
        FileEntry.mem_targets_ofFile_iff]
      rw [FileTree.isFile_iff edit.isNormal_file] at hfile
      exact ⟨hne.symm, reference,
        hrefers.of_agreesOff hagree (hw.isNormal hfinds.stored) (by simpa using hne),
        Resolution.resolve?_of_agreesOff hagree hres hfile⟩
    obtain ⟨dependent, hm, hpath, hdtest⟩ :=
      hdrawn.toCoherent.exists_mem_dependents settings names himport
    have hroot : graph.root = root.normalize := congrArg Prod.fst htracks.header
    rw [hroot, htest] at hdtest
    rw [hfiles, ← hpath]
    exact List.mem_map_of_mem (List.mem_filter.mpr ⟨hm, by simp [hdtest]⟩)

/-- A deleted file that one file still imports. -/
theorem mem_downstreamFiles_deleted :
    let tree := FileTree.ofTexts [("/p/a.js", "import './f';\n"), ("/p/f.js", "export const f = 1;\n")]
    let after := tree.remove (.ofString "/p/f.js")
    let edit : Edit :=
      { path := .ofString "f.js", before := "export const f = 1;\n", after := "", root := .ofString "/p" }
    ∃ graph report, ImportGraph.build? after {} (.ofString "/p") = some graph ∧
      edit.analyze after graph {} = .ok report ∧ report.status = .noProvenDependencies ∧
      report.downstreamFiles = [] := by
  intro tree after edit
  have hsome : (ImportGraph.build? after {} (.ofString "/p")).isSome = true := by decide +kernel
  let graph := (ImportGraph.build? after {} (.ofString "/p")).getD {}
  have hg : ImportGraph.build? after {} (.ofString "/p") = some graph := by
    rw [← Option.some_get hsome, Option.get_eq_getD]
  have hfinds : ImportGraph.Finds tree {} (Path.ofString "/p").normalize (.ofString "/p/a.js") :=
    ⟨by decide +kernel, by decide +kernel, by decide +kernel, by decide +kernel,
      fun directory _ _ _ => FileTree.isDenied_eq_false rfl directory⟩
  have hrefers : FileEntry.Refers tree (.ofString "/p/a.js") (.static "./f" 1 false false []) :=
    ⟨"import './f';\n", FileTree.read_eq_ok_iff.mpr (by decide +kernel), by decide +kernel,
      by decide +kernel⟩
  have hfile : edit.file = (Path.ofString "/p/f.js").normalize := by decide +kernel
  have hagree : tree.AgreesOff after [edit.file] := by
    rw [hfile]
    exact tree.agreesOff_remove _
  have hanalyze : (edit.analyze after graph {}).toOption.map (·.status) = some .noProvenDependencies := by
    decide +kernel
  cases hreport : edit.analyze after graph {} with
  | error cause => simp [hreport, Except.toOption] at hanalyze
  | ok report =>
      have hstatus : report.status = .noProvenDependencies := by
        simpa [hreport, Except.toOption] using hanalyze
      have h := mem_downstreamFiles_iff_isFile (FileTree.isWritten_ofTexts _)
        ((FileTree.isWritten_ofTexts _).remove _) (by decide) hagree hfinds (by decide +kernel)
        (by decide +kernel) hrefers (by decide +kernel) hg hreport (by simp [hstatus])
        (by simp [hstatus])
      exact ⟨graph, report, hg, hreport, hstatus, h.2 (by decide +kernel)⟩

end Edit

end ApiImpact
