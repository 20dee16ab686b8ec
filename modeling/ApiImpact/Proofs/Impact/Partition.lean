import Mathlib.Data.List.Nodup
import ApiImpact.Proofs.Impact.Deletion
import ApiImpact.Proofs.Impact.Evidence
import ApiImpact.Proofs.Path.Display
import ApiImpact.Proofs.Project.Coherence

/-!
# Where dependents are listed

A report has three lists of files. A dependent of the changed file is in one of the first two, by whether it is
a test, and the third has the line of its import. The lists are made apart from each other, and show paths as
text; nothing is lost or listed twice because the text tells the files of a project apart.
-/

namespace ApiImpact

/-- Every file is stored under the normal form of a path that text without backslashes writes. -/
def FileTree.IsPlain (tree : FileTree) : Prop :=
  ∀ file ∈ tree.files, ∃ text, '\\' ∉ text.toList ∧ file = (Path.ofString text).normalize

theorem FileTree.IsPlain.isWritten {tree : FileTree} (h : tree.IsPlain) : tree.IsWritten := by
  intro file hf
  obtain ⟨text, -, hfile⟩ := h file hf
  exact ⟨text, hfile⟩

theorem FileTree.IsPlain.insert {tree : FileTree} (h : tree.IsPlain) {written : String}
    (hwritten : '\\' ∉ written.toList) (text : String) : (tree.insert (.ofString written) text).IsPlain := by
  intro file hf
  rcases Std.ExtTreeMap.mem_insert.mp hf with he | hf
  · exact ⟨written, hwritten, (Std.LawfulEqCmp.eq_of_compare he).symm⟩
  · exact h file hf

theorem FileTree.isPlain_ofTexts {files : List (String × String)} (h : ∀ entry ∈ files, '\\' ∉ entry.1.toList) :
    (ofTexts files).IsPlain :=
  List.foldlRecOn (motive := IsPlain) _ _ (fun file hf => by simp at hf)
    fun _ htree entry hm => htree.insert (h entry hm) _

namespace ImportGraph

variable {tree : FileTree} {settings : Settings} {root file changed shown : Path} {graph : ImportGraph}
  {names : List String} {dependents : List Dependent} {tests : List AffectedTest} {dependent : Dependent}

/-! ## The files of a graph -/

/-- A graph that a walk leaves, whether it comes to its end or stops early. -/
def IsBuilt (tree : FileTree) (settings : Settings) (root : Path) (graph : ImportGraph) : Prop :=
  build? tree settings root = some graph ∨ IsCutShort tree settings root graph

theorem mem_files_addFile {path : Path} (h : file ∈ (graph.addFile tree path).files) :
    file ∈ graph.files ∨ file = path.normalize := by
  by_contra hnone
  obtain ⟨hold, hne⟩ := not_or.mp hnone
  have hentry : (graph.addFile tree path).entry file = graph.entry file := by
    rw [entry_addFile]
    cases tree.read path.normalize <;> simp [hne]
  have hpresent : (graph.addFile tree path).files.contains file = graph.files.contains file :=
    congrArg FileEntry.present hentry
  rw [← Std.ExtTreeSet.contains_iff_mem, hpresent, Std.ExtTreeSet.contains_iff_mem] at h
  exact hold h

theorem mem_files_foldl_addFile {seen : List Path} (h : file ∈ (seen.foldl (addFile tree) graph).files) :
    file ∈ graph.files ∨ ∃ path ∈ seen, file = path.normalize := by
  induction seen generalizing graph with
  | nil => exact .inl h
  | cons first rest ih =>
      rcases ih h with hm | ⟨path, hp, hfile⟩
      · rcases mem_files_addFile hm with hm | hfile
        · exact .inl hm
        · exact .inr ⟨first, List.mem_cons_self, hfile⟩
      · exact .inr ⟨path, List.mem_cons_of_mem _ hp, hfile⟩

theorem IsBuilt.coherent (h : IsBuilt tree settings root graph) : graph.Coherent :=
  h.elim coherent_of_build coherent_of_isCutShort

/-- A built graph is what some of the files of the walk leave. -/
theorem IsBuilt.exists_seen (h : IsBuilt tree settings root graph) :
    ∃ truncated, ∃ seen ⊆ walk tree settings (tree.depth + 1) root.normalize,
      graph = seen.foldl (addFile tree) { root := root.normalize, truncated } := by
  rcases h with h | ⟨seen, hseen, hgraph⟩
  · by_cases hb : settings.walkBudget = some 0
    · simp only [build?, hb] at h
      split_ifs at h
      exact ⟨true, [], List.nil_subset _, (Option.some.inj h).symm⟩
    · exact ⟨false, _, List.Subset.refl _, ((build?_eq_some_iff hb).mp h).2⟩
  · exact ⟨true, seen, hseen, hgraph⟩

theorem IsBuilt.root_eq (h : IsBuilt tree settings root graph) : graph.root = root.normalize := by
  obtain ⟨truncated, seen, -, rfl⟩ := h.exists_seen
  exact congrArg Prod.fst (header_foldl (fun _ file => header_addFile file) seen)

theorem IsBuilt.finds (h : IsBuilt tree settings root graph) (hw : tree.IsWritten) (hf : file ∈ graph.files) :
    Finds tree settings graph.root file := by
  rw [h.root_eq]
  obtain ⟨truncated, seen, hseen, rfl⟩ := h.exists_seen
  rcases mem_files_foldl_addFile hf with hf | ⟨path, hp, hfile⟩
  · simp at hf
  · have hfinds := (mem_walk_depth_iff hw (Path.isNormal_normalize root)).mp (hseen hp)
    rwa [hfile, (hw.isNormal hfinds.stored).eq]

theorem Finds.isUnder (h : Finds tree settings root file) : root.isUnder file = true := by
  obtain ⟨inner, hsteps, -⟩ := isWalked_iff.mp h.walked
  exact Path.isUnder_iff.mpr ⟨inner, hsteps.symm⟩

/-- What is shown of a file tells it apart from the other files of the graph, and from all files that lie
below the root or are absolute like it. -/
theorem IsBuilt.display_inj (h : IsBuilt tree settings root graph) (hp : tree.IsPlain) (hf : file ∈ graph.files)
    {other : Path} (hplain : other.IsPlain) (hn : other.IsNormal)
    (hother : graph.root.isUnder other = true ∨ graph.root.absolute = true ∧ other.absolute = true)
    (heq : Path.display graph.root file = Path.display graph.root other) : file = other := by
  have hfinds := h.finds hp.isWritten hf
  obtain ⟨text, htext, hfile⟩ := hp file hfinds.stored
  have hfplain : file.IsPlain := hfile ▸ (Path.isPlain_ofString htext).normalize
  exact Path.display_inj hfplain (hp.isWritten.isNormal hfinds.stored) hplain hn hfinds.isUnder hother heq

theorem IsBuilt.display_injOn (h : IsBuilt tree settings root graph) (hp : tree.IsPlain) {other : Path}
    (hf : file ∈ graph.files) (ho : other ∈ graph.files)
    (heq : Path.display graph.root file = Path.display graph.root other) : file = other := by
  have hfinds := h.finds hp.isWritten ho
  obtain ⟨text, htext, hother⟩ := hp other hfinds.stored
  exact h.display_inj hp hf (hother ▸ (Path.isPlain_ofString htext).normalize)
    (hp.isWritten.isNormal hfinds.stored) (.inl hfinds.isUnder) heq

/-- Among files that are listed once each, what is shown of a file occurs once if the file is one of them, and
never if not. -/
theorem IsBuilt.count_display (h : IsBuilt tree settings root graph) (hp : tree.IsPlain) {files : List Path}
    (hd : files.Nodup) (hfiles : ∀ other ∈ files, other ∈ graph.files) (hf : file ∈ graph.files) :
    (files.map (Path.display graph.root)).count (Path.display graph.root file) = if file ∈ files then 1 else 0 := by
  have hinj (other : Path) (ho : other ∈ files)
      (heq : Path.display graph.root other = Path.display graph.root file) : other = file :=
    h.display_injOn hp (hfiles other ho) hf heq
  split_ifs with hm
  · have hnodup : (files.map (Path.display graph.root)).Nodup :=
      hd.map_on fun other ho another ha => h.display_injOn hp (hfiles other ho) (hfiles another ha)
    exact List.count_eq_one_of_mem hnodup (List.mem_map_of_mem hm)
  · rw [List.count_eq_zero]
    intro hshown
    obtain ⟨other, ho, heq⟩ := List.mem_map.mp hshown
    exact hm (hinj other ho heq ▸ ho)

/-! ## Dependents and tests -/

theorem Coherent.mem_files_of_mem_dependents (h : graph.Coherent)
    (hd : dependent ∈ graph.dependents settings changed names) :
    dependent.path ∈ graph.files ∧ dependent.path ≠ changed := by
  obtain ⟨hdistance, -⟩ := mem_dependents_iff.mp hd
  obtain ⟨hpos, hdistance⟩ := (distances_iff h.toMirrored).mp hdistance
  obtain ⟨depth, hdepth⟩ := Nat.exists_eq_succ_of_ne_zero hpos.ne'
  rw [hdepth] at hdistance
  exact ⟨h.wellFormed.mem_files _ (.inl hdistance.mem_imports), hdistance.ne_changed⟩

theorem nodup_map_path_dependents : ((graph.dependents settings changed names).map (·.path)).Nodup := by
  rw [map_path_dependents]
  exact Std.ExtTreeMap.nodup_keys

/-- Dependents that are tests are affected. All affected tests are tests of the graph other than the changed
file, and each of them is affected once. -/
theorem Coherent.affectedTests_spec (h : graph.Coherent)
    (ht : affectedTests tree graph settings changed names (graph.dependents settings changed names) = .ok tests) :
    (tests.map (·.path)).Nodup ∧
    (∀ file ∈ tests.map (·.path),
      file ∈ graph.files ∧ isTest settings graph.root file = true ∧ file ≠ changed) ∧
    ∀ d ∈ graph.dependents settings changed names, d.isTest = true → d.path ∈ tests.map (·.path) := by
  obtain ⟨affected, hrun, ht⟩ := bind_eq_ok_iff.mp ht
  have hpaths : tests.map (·.path) = affected.keys := by
    rw [← Except.ok.inj ht, List.map_map, ← Std.ExtTreeMap.map_fst_toList_eq_keys]
    rfl
  have hmem (file : Path) : file ∈ affected.keys ↔ ∃ evidence, affected[file]? = some evidence := by
    rw [Std.ExtTreeMap.mem_keys, Std.ExtTreeMap.mem_iff_isSome_getElem?, Option.isSome_iff_exists]
  rw [hpaths]
  refine ⟨Std.ExtTreeMap.nodup_keys, fun file hf => ?_, fun d hd htest => ?_⟩
  · obtain ⟨evidence, hevidence⟩ := (hmem file).mp hf
    rcases (getElem?_foldlM_addTest hrun).mp hevidence with hold | ⟨-, hm, hne, -⟩
    · rw [getElem?_dependentTests] at hold
      split_ifs at hold with hex
      obtain ⟨d, hd, htest, rfl⟩ := hex
      obtain ⟨hfile, hne⟩ := h.mem_files_of_mem_dependents hd
      exact ⟨hfile, (mem_dependents_iff.mp hd).2.2 ▸ htest, hne⟩
    · obtain ⟨hfile, htest⟩ := List.mem_filter.mp hm
      exact ⟨Std.ExtTreeSet.mem_toList.mp hfile, htest, hne⟩
  · rw [hmem]
    refine ⟨.graph, (getElem?_foldlM_addTest hrun).mpr (.inl ?_)⟩
    rw [getElem?_dependentTests, if_pos ⟨d, hd, htest, rfl⟩]

/-! ## What is shown of them -/

theorem IsBuilt.pairwise_display_dependents (h : IsBuilt tree settings root graph) (hp : tree.IsPlain) :
    (graph.dependents settings changed names).Pairwise fun d e =>
      Path.display graph.root d.path ≠ Path.display graph.root e.path := by
  have hnodup : (graph.dependents settings changed names).Pairwise fun d e => d.path ≠ e.path :=
    List.pairwise_map.mp nodup_map_path_dependents
  refine hnodup.imp_of_mem fun hd he hne heq => hne ?_
  exact h.display_injOn hp (h.coherent.mem_files_of_mem_dependents hd).1
    (h.coherent.mem_files_of_mem_dependents he).1 heq

theorem IsBuilt.count_dependents (h : IsBuilt tree settings root graph) (hp : tree.IsPlain)
    (hd : dependent ∈ graph.dependents settings changed names) :
    (((graph.dependents settings changed names).filter (!·.isTest)).map fun d =>
      Path.display graph.root d.path).count (Path.display graph.root dependent.path) =
        if isTest settings graph.root dependent.path then 0 else 1 := by
  let others := (graph.dependents settings changed names).filter (!·.isTest)
  have hothers (d : Dependent) : d ∈ others ↔ d ∈ graph.dependents settings changed names ∧
      isTest settings graph.root d.path = false := by
    rw [List.mem_filter, Bool.not_eq_true']
    exact and_congr_right fun hd => by rw [(mem_dependents_iff.mp hd).2.2]
  have hnodup : (others.map (·.path)).Nodup := (List.filter_sublist.map _).nodup nodup_map_path_dependents
  have hfiles : ∀ file ∈ others.map (·.path), file ∈ graph.files := by
    intro file hf
    obtain ⟨d, hd, rfl⟩ := List.mem_map.mp hf
    exact (h.coherent.mem_files_of_mem_dependents ((hothers d).mp hd).1).1
  have hmem : dependent.path ∈ others.map (·.path) ↔ ¬isTest settings graph.root dependent.path = true := by
    rw [Bool.not_eq_true]
    constructor
    · intro hm
      obtain ⟨d, hd, hpath⟩ := List.mem_map.mp hm
      exact hpath ▸ ((hothers d).mp hd).2
    · exact fun htest => List.mem_map_of_mem ((hothers dependent).mpr ⟨hd, htest⟩)
  have hcount := h.count_display hp hnodup hfiles (h.coherent.mem_files_of_mem_dependents hd).1
  rw [List.map_map] at hcount
  exact hcount.trans (by simp only [hmem, ite_not])

end ImportGraph

namespace ImpactReport

variable {root : Path} {dependents : List Dependent} {d : Dependent}

/-- Where paths are told apart by what is shown of them, every dependent has its own line. -/
theorem mem_linesOf (hd : dependents.Pairwise fun d e => Path.display root d.path ≠ Path.display root e.path)
    (hm : d ∈ dependents) : (Path.display root d.path, d.line) ∈ linesOf root dependents := by
  rw [linesOf, Std.ExtTreeMap.mem_toList_iff_getElem?_eq_some]
  refine Std.ExtTreeMap.getElem?_ofList_of_mem Std.ReflCmp.compare_self ?_ (List.mem_map_of_mem hm)
  rw [List.pairwise_map]
  exact hd.imp fun hne heq => hne (Std.LawfulEqCmp.eq_of_compare heq)

theorem mem_map_fst_linesOf {shown : String} :
    shown ∈ (linesOf root dependents).map (·.1) ↔ shown ∈ dependents.map fun d => Path.display root d.path := by
  rw [linesOf, Std.ExtTreeMap.map_fst_toList_eq_keys, Std.ExtTreeMap.mem_keys, Std.ExtTreeMap.mem_ofList,
    List.map_map, List.contains_iff_mem]
  rfl

theorem nodup_map_fst_linesOf : ((linesOf root dependents).map (·.1)).Nodup := by
  rw [linesOf, Std.ExtTreeMap.map_fst_toList_eq_keys]
  exact Std.ExtTreeMap.nodup_keys

end ImpactReport

namespace Edit

variable {tree now : FileTree} {settings : Settings} {root : Path} {graph : ImportGraph} {edit : Edit}
  {report : ImpactReport}

/-- All lists are made of files of the project other than the changed one. -/
theorem exists_file_of_listed (hcoherent : graph.Coherent) (hreport : edit.analyze now graph settings = .ok report)
    (hu : report.status ≠ .unchanged) (ha : report.status ≠ .unanalyzable) {shown : String}
    (hs : shown ∈ report.downstreamFiles ++ report.tests ++ report.downstreamLines.map (·.1)) :
    ∃ file ∈ graph.files, Path.display graph.root file = shown ∧ file ≠ edit.file := by
  obtain ⟨names, tests, -, htests, hfiles, hshown, hlines⟩ := lists_of_analyze hreport hu ha
  obtain ⟨-, htested, -⟩ := hcoherent.affectedTests_spec htests
  have hdependent (d : Dependent) (hd : d ∈ graph.dependents settings edit.file names)
      (heq : Path.display graph.root d.path = shown) :
      ∃ file ∈ graph.files, Path.display graph.root file = shown ∧ file ≠ edit.file :=
    have h := hcoherent.mem_files_of_mem_dependents hd
    ⟨d.path, h.1, heq, h.2⟩
  rw [List.mem_append, List.mem_append, hfiles, hshown, hlines, ImpactReport.mem_map_fst_linesOf] at hs
  rcases hs with (hs | hs) | hs
  · obtain ⟨d, hd, heq⟩ := List.mem_map.mp hs
    exact hdependent d (List.mem_filter.mp hd).1 heq
  · obtain ⟨file, hm, heq⟩ := List.mem_map.mp hs
    exact ⟨file, (htested file hm).1, heq, (htested file hm).2.2⟩
  · obtain ⟨d, hd, heq⟩ := List.mem_map.mp hs
    exact hdependent d hd heq

/-- Every dependent of the changed file is listed once: as a test if it is one and as a downstream file if not,
and with the line of its import. The tests are listed once each, and what is listed are files of the project
other than the changed one, each known by its text. -/
theorem dependents_listed_once (hplain : tree.IsPlain) (hbuilt : ImportGraph.IsBuilt tree settings root graph)
    (hreport : edit.analyze now graph settings = .ok report)
    (hu : report.status ≠ .unchanged) (ha : report.status ≠ .unanalyzable) :
    ∃ names, edit.Changes settings graph names ∧
      (∀ d ∈ graph.dependents settings edit.file names,
        let shown := Path.display graph.root d.path
        let isTest := ImportGraph.isTest settings graph.root d.path
        report.downstreamFiles.count shown = (if isTest then 0 else 1) ∧
        report.tests.count shown = (if isTest then 1 else 0) ∧
        (report.downstreamLines.map (·.1)).count shown = 1 ∧ (shown, d.line) ∈ report.downstreamLines) ∧
      report.tests.Nodup ∧
      (∀ shown ∈ report.tests, ∃ file ∈ graph.files, Path.display graph.root file = shown ∧
        ImportGraph.isTest settings graph.root file = true) ∧
      (∀ shown ∈ report.downstreamFiles ++ report.tests ++ report.downstreamLines.map (·.1),
        ∃ file ∈ graph.files, Path.display graph.root file = shown ∧ file ≠ edit.file ∧
          ∀ other ∈ graph.files, Path.display graph.root other = shown → other = file) ∧
      (edit.file.IsPlain → graph.root.isUnder edit.file = true ∨
          graph.root.absolute = true ∧ edit.file.absolute = true →
        Path.display graph.root edit.file ∉
          report.downstreamFiles ++ report.tests ++ report.downstreamLines.map (·.1)) := by
  obtain ⟨names, tests, hnames, htests, hfiles, hshown, hlines⟩ := lists_of_analyze hreport hu ha
  obtain ⟨hnodup, htested, hlinked⟩ := hbuilt.coherent.affectedTests_spec htests
  have hlisted {shown : String}
      (hs : shown ∈ report.downstreamFiles ++ report.tests ++ report.downstreamLines.map (·.1)) :=
    exists_file_of_listed hbuilt.coherent hreport hu ha hs
  have htestedFiles : ∀ file ∈ tests.map (·.path), file ∈ graph.files := fun file hm => (htested file hm).1
  refine ⟨names, hnames, fun d hd => ?_, ?_, fun shown hs => ?_, fun shown hs => ?_, fun hedit hunder hs => ?_⟩
  · obtain ⟨hfile, -⟩ := hbuilt.coherent.mem_files_of_mem_dependents hd
    have htest : d.isTest = ImportGraph.isTest settings graph.root d.path := (ImportGraph.mem_dependents_iff.mp hd).2.2
    intro shown isTest
    refine ⟨hfiles ▸ hbuilt.count_dependents hplain hd, ?_, ?_, ?_⟩
    · have hiff : d.path ∈ tests.map (·.path) ↔ isTest = true :=
        ⟨fun hm => (htested d.path hm).2.1, fun ht => hlinked d hd (htest.trans ht)⟩
      rw [hshown, hbuilt.count_display hplain hnodup htestedFiles hfile]
      simp only [hiff]
    · rw [hlines]
      refine List.count_eq_one_of_mem ImpactReport.nodup_map_fst_linesOf ?_
      exact ImpactReport.mem_map_fst_linesOf.mpr (List.mem_map_of_mem hd)
    · rw [hlines]
      exact ImpactReport.mem_linesOf (hbuilt.pairwise_display_dependents hplain) hd
  · rw [hshown]
    exact hnodup.map_on fun file hm other ho =>
      hbuilt.display_injOn hplain (htestedFiles file hm) (htestedFiles other ho)
  · rw [hshown] at hs
    obtain ⟨file, hm, heq⟩ := List.mem_map.mp hs
    exact ⟨file, (htested file hm).1, heq, (htested file hm).2.1⟩
  · obtain ⟨file, hfile, heq, hne⟩ := hlisted hs
    exact ⟨file, hfile, heq, hne, fun other ho hother =>
      hbuilt.display_injOn hplain ho hfile (hother.trans heq.symm)⟩
  · obtain ⟨file, hfile, heq, hne⟩ := hlisted hs
    exact hne (hbuilt.display_inj hplain hfile hedit edit.isNormal_file hunder heq)

/-- A file is imported by another one, and that one by a test. -/
theorem dependents_listed_once_of_chain :
    let tree := FileTree.ofTexts [("/p/a.js", "import './f';\n"),
      ("/p/a.test.js", "import './a';\n"), ("/p/f.js", "export const f = 1;\n")]
    let edit : Edit :=
      { path := .ofString "f.js", before := "export const f = 1;\n", after := "", root := .ofString "/p" }
    ∃ graph report, ImportGraph.build? tree {} (.ofString "/p") = some graph ∧
      edit.analyze tree graph {} = .ok report ∧ report.downstreamFiles = ["a.js"] ∧
      report.downstreamLines = [("a.js", some 1), ("a.test.js", none)] ∧ report.tests = ["a.test.js"] ∧
      report.tests.Nodup := by
  intro tree edit
  have hsome : (ImportGraph.build? tree {} (.ofString "/p")).isSome = true := by decide +kernel
  let graph := (ImportGraph.build? tree {} (.ofString "/p")).getD {}
  have hg : ImportGraph.build? tree {} (.ofString "/p") = some graph := by
    rw [← Option.some_get hsome, Option.get_eq_getD]
  have hanalyze : (edit.analyze tree graph {}).toOption.any (fun report => report.status = .impacted ∧
      report.downstreamFiles = ["a.js"] ∧ report.tests = ["a.test.js"] ∧
      report.downstreamLines = [("a.js", some 1), ("a.test.js", none)]) = true := by
    decide +kernel
  cases hreport : edit.analyze tree graph {} with
  | error cause => simp [hreport, Except.toOption] at hanalyze
  | ok report =>
      obtain ⟨hstatus, hfiles, htests, hlines⟩ : report.status = .impacted ∧
          report.downstreamFiles = ["a.js"] ∧ report.tests = ["a.test.js"] ∧
          report.downstreamLines = [("a.js", some 1), ("a.test.js", none)] := by
        simpa [hreport, Except.toOption] using hanalyze
      have hplain : tree.IsPlain := FileTree.isPlain_ofTexts (by decide)
      obtain ⟨names, -, -, hnodup, -⟩ := dependents_listed_once hplain (.inl hg) hreport (by simp [hstatus])
        (by simp [hstatus])
      exact ⟨graph, report, hg, hreport, hfiles, hlines, htests, hnodup⟩

end Edit

end ApiImpact
