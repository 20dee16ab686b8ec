import ApiImpact.Proofs.Project.Entry

/-!
# Coherent import graphs

The importers of a graph are the inverse of its imports, nothing is kept that is empty, and every import
is among what its file takes into consideration. This holds of every graph that can be reached, whatever
happens to the files in between. A coherent graph is determined by its entries.
-/

namespace ApiImpact

namespace FileEntry

variable {tree : FileTree} {entry : FileEntry} {path : Path}

/-- What holds of the entry of the file at `path`. -/
structure Sound (path : Path) (entry : FileEntry) : Prop where
  normal : entry ≠ absent → path.IsNormal
  present : entry.imports.isSome = true ∨ entry.considered.isSome = true → entry.present = true
  imports_ne : entry.imports ≠ some ∅
  references_ne : ∀ target : Path, entry.targets[target]? ≠ some []
  self_notMem : path ∉ entry.targets
  relative : ∀ target, ∀ reference ∈ entry.references target, reference.isRelative = true
  considers : ∀ target ∈ entry.targets, entry.Considers target

@[simp]
theorem targets_absent : absent.targets = ∅ := rfl

@[simp]
theorem references_absent (target : Path) : absent.references target = [] := by
  simp [references]

theorem sound_absent (path : Path) : absent.Sound path where
  normal h := absurd rfl h
  present h := by simp [absent] at h
  imports_ne := by simp [absent]
  references_ne := by simp
  self_notMem := by simp
  relative := by simp
  considers := by simp

theorem Sound.consider (h : entry.Sound path) (hn : path.IsNormal) (hp : entry.present = true)
    (paths : List Path) : (entry.consider paths).Sound path where
  normal _ := hn
  present _ := hp
  imports_ne := h.imports_ne
  references_ne := h.references_ne
  self_notMem := h.self_notMem
  relative := h.relative
  considers target ht := by
    have := h.considers target ht
    simp_all [Considers, FileEntry.consider]

theorem considers_consider {paths : List Path} {target : Path} (h : target ∈ paths) :
    (entry.consider paths).Considers target := by
  simp [Considers, consider, h]

theorem mem_targets_link {target other : Path} {reference : ModuleReference} :
    other ∈ (entry.link target reference).targets ↔ other = target ∨ other ∈ entry.targets := by
  rw [link, targets, Option.getD_some, Std.ExtTreeMap.mem_insert, Std.LawfulEqCmp.compare_eq_iff_eq]
  simp only [eq_comm]

theorem references_link (target other : Path) (reference : ModuleReference) :
    (entry.link target reference).references other =
      if other = target then entry.references target ++ [reference] else entry.references other := by
  split_ifs with h
  · subst h
    simp [link, targets, references]
  · simp [link, targets, references, Std.ExtTreeMap.getElem?_insert, Ne.symm h]

theorem Sound.link (h : entry.Sound path) (hn : path.IsNormal) (hp : entry.present = true)
    {target : Path} (hne : target ≠ path) (hc : entry.Considers target) {reference : ModuleReference}
    (hr : reference.isRelative = true) : (entry.link target reference).Sound path where
  normal _ := hn
  present _ := hp
  imports_ne := by
    simp only [FileEntry.link, ne_eq, Option.some.injEq]
    intro he
    have : target ∈ entry.targets.insert target (entry.references target ++ [reference]) := by simp
    simp [he] at this
  references_ne other := by
    have := h.references_ne other
    by_cases ho : target = other <;>
      simp_all [FileEntry.link, targets, Std.ExtTreeMap.getElem?_insert]
  self_notMem := by
    rw [mem_targets_link]
    rintro (he | hm)
    · exact hne he.symm
    · exact h.self_notMem hm
  relative other r hm := by
    rw [references_link] at hm
    split_ifs at hm
    · rcases List.mem_append.mp hm with hm | hm
      · exact h.relative target r hm
      · rwa [List.mem_singleton.mp hm]
    · exact h.relative other r hm
  considers other hm := by
    rcases mem_targets_link.mp hm with rfl | hm
    · exact hc
    · exact h.considers other hm

theorem present_addReference (reference : ModuleReference) :
    (entry.addReference tree path reference).present = entry.present := by
  unfold addReference
  cases Resolution.resolve? tree path reference.specifier with
  | none => rfl
  | some target => by_cases ht : target = path <;> simp [ht, consider, link]

theorem Sound.addReference (h : entry.Sound path) (hn : path.IsNormal) (hp : entry.present = true)
    {reference : ModuleReference} (hr : reference.isRelative = true) :
    (entry.addReference tree path reference).Sound path := by
  have hc := h.consider hn hp (Resolution.candidates path reference.specifier)
  unfold FileEntry.addReference
  cases he : Resolution.resolve? tree path reference.specifier with
  | none => exact hc
  | some target =>
      by_cases ht : target = path
      · simpa [ht] using hc
      · simp only [ht, if_false]
        exact hc.link hn hp ht (considers_consider (Resolution.mem_candidates_of_resolve he)) hr

end FileEntry

namespace ImportGraph

variable {tree : FileTree} {graph : ImportGraph} {importer : Path}

/-- The importers are the inverse of the imports. -/
structure Mirrored (graph : ImportGraph) : Prop where
  mem_importersOf_iff : ∀ target importer,
    importer ∈ graph.importersOf target ↔ target ∈ graph.importsOf importer
  importers_ne : ∀ target : Path, graph.importers[target]? ≠ some ∅

/-- A graph as it is kept by all operations. -/
structure Coherent (graph : ImportGraph) : Prop extends Mirrored graph where
  sound : ∀ path, (graph.entry path).Sound path

theorem mem_importersOf {target : Path} :
    importer ∈ graph.importersOf target ↔ importer ∈ graph.importers[target]?.getD ∅ :=
  Std.ExtTreeSet.mem_toList

theorem coherent_empty (root : Path) (truncated : Bool) :
    ({ root, truncated } : ImportGraph).Coherent where
  mem_importersOf_iff := by simp [mem_importersOf, importsOf]
  importers_ne := by simp
  sound path := by
    rw [entry_empty]
    exact FileEntry.sound_absent path

theorem Coherent.references_ne (h : graph.Coherent) {importer target : Path}
    (hm : target ∈ graph.importsOf importer) : graph.references importer target ≠ [] := by
  rw [mem_importsOf_iff] at hm
  rw [references_eq, FileEntry.references, Std.ExtTreeMap.getElem?_eq_some_getElem hm]
  intro he
  refine (h.sound importer).references_ne target ?_
  rw [Std.ExtTreeMap.getElem?_eq_some_getElem hm]
  exact congrArg some he

/-! ## Adding files -/

theorem Mirrored.link (h : graph.Mirrored) (importer target : Path) (reference : ModuleReference) :
    (graph.link importer target reference).Mirrored where
  mem_importersOf_iff other path := by
    have hm := h.mem_importersOf_iff other path
    rw [mem_importersOf, mem_importsOf_iff] at hm
    rw [mem_importersOf, mem_importsOf_iff, entry_link]
    simp only [ImportGraph.link, Std.ExtTreeMap.getElem?_insert, Std.LawfulEqCmp.compare_eq_iff_eq]
    by_cases ht : target = other
    · subst ht
      by_cases hp : path = importer
      · simp [hp, FileEntry.mem_targets_link]
      · simp [hp, Ne.symm hp, hm, Std.ExtTreeSet.mem_insert]
    · by_cases hp : path = importer
      · subst hp
        simp [ht, Ne.symm ht, FileEntry.mem_targets_link, hm]
      · simp [ht, hp, hm]
  importers_ne other := by
    have := h.importers_ne other
    simp only [ImportGraph.link, Std.ExtTreeMap.getElem?_insert]
    split_ifs
    · simp
    · exact this

theorem Mirrored.addReference (h : graph.Mirrored) (importer : Path) (reference : ModuleReference) :
    (graph.addReference tree importer reference).Mirrored := by
  have hc : (graph.consider importer (Resolution.candidates importer reference.specifier)).Mirrored :=
    ⟨h.mem_importersOf_iff, h.importers_ne⟩
  unfold ImportGraph.addReference
  cases Resolution.resolve? tree importer reference.specifier with
  | none => exact hc
  | some target =>
      by_cases ht : target = importer
      · simpa [ht] using hc
      · simpa [ht] using hc.link importer target reference

theorem Coherent.addReference (h : graph.Coherent) (hn : importer.IsNormal)
    (hp : (graph.entry importer).present = true) {reference : ModuleReference}
    (hr : reference.isRelative = true) : (graph.addReference tree importer reference).Coherent where
  toMirrored := h.toMirrored.addReference importer reference
  sound path := by
    rw [entry_addReference]
    split_ifs with he
    · subst he
      exact (h.sound path).addReference hn hp hr
    · exact h.sound path

theorem Coherent.foldl_addReference {references : List ModuleReference} (h : graph.Coherent)
    (hn : importer.IsNormal) (hp : (graph.entry importer).present = true)
    (hr : ∀ reference ∈ references, reference.isRelative = true) :
    (references.foldl (ImportGraph.addReference tree importer) graph).Coherent := by
  induction references generalizing graph with
  | nil => exact h
  | cons reference rest ih =>
      refine ih (h.addReference hn hp (hr reference (by simp))) ?_ fun r hm => hr r (by simp [hm])
      rwa [entry_addReference, if_pos rfl, FileEntry.present_addReference]

theorem Coherent.addFile (h : graph.Coherent) (tree : FileTree) (path : Path) :
    (graph.addFile tree path).Coherent := by
  cases hr : tree.read path.normalize with
  | error cause => rwa [addFile_of_error hr]
  | ok text =>
      rw [addFile_of_ok hr]
      refine Coherent.foldl_addReference ?_ (Path.isNormal_normalize _) ?_ ?_
      · refine ⟨⟨h.mem_importersOf_iff, h.importers_ne⟩, fun other => ?_⟩
        have hs := h.sound other
        by_cases he : other = path.normalize
        · subst he
          exact { hs with normal := fun _ => Path.isNormal_normalize _, present := fun _ => by simp [entry] }
        · have : entry { graph with files := graph.files.insert path.normalize } other =
              graph.entry other := by simp [entry, Ne.symm he]
          rwa [this]
      · simp [entry]
      · simp

theorem Coherent.foldl {update : ImportGraph → Path → ImportGraph} (h : graph.Coherent)
    (hu : ∀ graph path, Coherent graph → (update graph path).Coherent) (paths : List Path) :
    (paths.foldl update graph).Coherent := by
  induction paths generalizing graph with
  | nil => exact h
  | cons path rest ih => exact ih (hu graph path h)

/-! ## Dropping files -/

section Unlink

variable {importers : Std.ExtTreeMap Path (Std.ExtTreeSet Path)}

theorem mem_unlink {target other path : Path} :
    path ∈ (unlink importer importers target)[other]?.getD ∅ ↔
      path ∈ importers[other]?.getD ∅ ∧ (other = target → path ≠ importer) := by
  unfold unlink
  cases hg : importers[target]? with
  | none =>
      refine ⟨fun h => ⟨h, ?_⟩, And.left⟩
      rintro rfl
      simp [hg] at h
  | some others =>
      have hm : path ∈ others.erase importer ↔ path ∈ others ∧ path ≠ importer := by
        simp [Std.ExtTreeSet.mem_erase, and_comm, @eq_comm _ path]
      simp only
      split_ifs with he
      · rw [Std.ExtTreeSet.isEmpty_iff.mp he] at hm
        by_cases ho : target = other
        · subst ho
          simpa [hg] using hm
        · simp [Std.ExtTreeMap.getElem?_erase, ho, Ne.symm ho]
      · by_cases ho : target = other
        · subst ho
          simpa [hg] using hm
        · simp [Std.ExtTreeMap.getElem?_insert, ho, Ne.symm ho]

theorem mem_foldl_unlink {targets : List Path} {other path : Path} :
    path ∈ (targets.foldl (unlink importer) importers)[other]?.getD ∅ ↔
      path ∈ importers[other]?.getD ∅ ∧ (other ∈ targets → path ≠ importer) := by
  induction targets generalizing importers with
  | nil => simp
  | cons target rest ih =>
      rw [List.foldl_cons, ih, mem_unlink, List.mem_cons]
      tauto

theorem unlink_ne (h : ∀ other : Path, importers[other]? ≠ some ∅) (target other : Path) :
    (unlink importer importers target)[other]? ≠ some ∅ := by
  unfold unlink
  cases importers[target]? with
  | none => exact h other
  | some others =>
      simp only
      split_ifs with he
      · rw [Std.ExtTreeMap.getElem?_erase]
        split_ifs
        · simp
        · exact h other
      · rw [Std.ExtTreeMap.getElem?_insert]
        split_ifs
        · simpa using he
        · exact h other

theorem foldl_unlink_ne {targets : List Path} (h : ∀ other : Path, importers[other]? ≠ some ∅)
    (other : Path) : (targets.foldl (unlink importer) importers)[other]? ≠ some ∅ := by
  induction targets generalizing importers with
  | nil => exact h other
  | cons target rest ih => exact ih (unlink_ne h target)

end Unlink

theorem Coherent.dropFile (h : graph.Coherent) (path : Path) : (graph.dropFile path).Coherent where
  mem_importersOf_iff target other := by
    have hm := h.mem_importersOf_iff target
    simp only [mem_importersOf, mem_importsOf_iff] at hm
    rw [mem_importersOf, mem_importsOf_iff, entry_dropFile]
    simp only [ImportGraph.dropFile, mem_foldl_unlink, mem_importsOf_iff, hm]
    split_ifs with he
    · simp [he]
    · simp [he]
  importers_ne := foldl_unlink_ne h.importers_ne
  sound other := by
    rw [entry_dropFile]
    split_ifs
    · exact FileEntry.sound_absent other
    · exact h.sound other

/-! ## Updates -/

theorem Coherent.reread (h : graph.Coherent) (tree : FileTree) (path : Path) :
    (graph.reread tree path).Coherent :=
  (h.dropFile path).addFile tree path

theorem Coherent.refresh (h : graph.Coherent) (tree : FileTree) (path : Path) :
    (graph.refresh tree path).Coherent := by
  unfold ImportGraph.refresh
  exact h.foldl (fun _ dependent hg => hg.reread tree dependent) _

theorem Coherent.invalidate (h : graph.Coherent) (tree : FileTree) (path : Path) :
    (graph.invalidate tree path).Coherent := by
  unfold ImportGraph.invalidate
  simp only
  split_ifs
  · exact h.dropFile _
  · exact (h.dropFile _).refresh tree _

theorem Coherent.rebuild (h : graph.Coherent) (tree : FileTree) (path : Path) :
    (graph.rebuild tree path).Coherent := by
  unfold ImportGraph.rebuild
  simp only
  split_ifs
  · exact (h.reread tree _).refresh tree _
  · exact (h.dropFile _).refresh tree _
  · exact h.reread tree _
  · exact h.dropFile _

theorem coherent_of_build {settings : Settings} {root : Path}
    (h : build? tree settings root = some graph) : graph.Coherent := by
  simp only [build?] at h
  split_ifs at h
  · cases h
    exact coherent_empty _ true
  · cases h
    exact (coherent_empty _ false).foldl (fun _ path hg => hg.addFile tree path) _

/-! ## The header -/

/-- What a graph holds about the walk as a whole. -/
def header (graph : ImportGraph) : Path × Bool := (graph.root, graph.truncated)

theorem header_foldl {α : Type} {update : ImportGraph → α → ImportGraph}
    (hu : ∀ graph a, (update graph a).header = graph.header) (as : List α) :
    (as.foldl update graph).header = graph.header := by
  induction as generalizing graph with
  | nil => rfl
  | cons a as ih => rw [List.foldl_cons, ih, hu]

@[simp]
theorem header_addReference (reference : ModuleReference) :
    (graph.addReference tree importer reference).header = graph.header := by
  unfold addReference
  cases Resolution.resolve? tree importer reference.specifier with
  | none => rfl
  | some target => by_cases ht : target = importer <;> simp [ht, header, ImportGraph.consider, link]

@[simp]
theorem header_addFile (path : Path) : (graph.addFile tree path).header = graph.header := by
  cases hr : tree.read path.normalize with
  | error cause => rw [addFile_of_error hr]
  | ok text =>
      rw [addFile_of_ok hr]
      exact header_foldl (fun _ reference => header_addReference reference) _

@[simp]
theorem header_dropFile (path : Path) : (graph.dropFile path).header = graph.header := rfl

@[simp]
theorem header_reread (path : Path) : (graph.reread tree path).header = graph.header := by
  simp [ImportGraph.reread]

@[simp]
theorem header_refresh (path : Path) : (graph.refresh tree path).header = graph.header :=
  header_foldl (fun _ dependent => header_reread dependent) _

@[simp]
theorem header_rebuild (path : Path) : (graph.rebuild tree path).header = graph.header := by
  unfold ImportGraph.rebuild
  simp only
  split_ifs <;> simp

/-- A coherent graph is determined by its header and its entries. -/
theorem Coherent.ext {other : ImportGraph} (h : graph.Coherent) (ho : other.Coherent)
    (hh : graph.header = other.header) (he : ∀ path, graph.entry path = other.entry path) :
    graph = other := by
  have himports : graph.imports = other.imports :=
    Std.ExtTreeMap.ext_getElem? fun path => congrArg FileEntry.imports (he path)
  have hconsidered : graph.considered = other.considered :=
    Std.ExtTreeMap.ext_getElem? fun path => congrArg FileEntry.considered (he path)
  have hfiles : graph.files = other.files :=
    Std.ExtTreeSet.ext_contains fun path => congrArg FileEntry.present (he path)
  have himporters : graph.importers = other.importers := by
    refine Std.ExtTreeMap.ext_getElem? fun target => ?_
    have hm : graph.importers[target]?.getD ∅ = other.importers[target]?.getD ∅ := by
      refine Std.ExtTreeSet.ext_mem fun importer => ?_
      rw [← mem_importersOf, ← mem_importersOf, h.mem_importersOf_iff, ho.mem_importersOf_iff,
        mem_importsOf_iff, mem_importsOf_iff, he]
    have := h.importers_ne target
    have := ho.importers_ne target
    cases hg : graph.importers[target]? <;> cases hg' : other.importers[target]? <;> simp_all
  obtain ⟨hroot, htruncated⟩ := Prod.mk.inj hh
  cases graph
  cases other
  simp_all

/-! ## All graphs -/

/-- The graphs that building and updating lead to, each step with the files as they are at the time. -/
inductive Reachable : ImportGraph → Prop where
  | build {tree : FileTree} {settings : Settings} {root : Path} {graph : ImportGraph} :
      build? tree settings root = some graph → Reachable graph
  | rebuild {graph : ImportGraph} (tree : FileTree) (path : Path) :
      Reachable graph → Reachable (graph.rebuild tree path)
  | invalidate {graph : ImportGraph} (tree : FileTree) (path : Path) :
      Reachable graph → Reachable (graph.invalidate tree path)

theorem Reachable.coherent (h : graph.Reachable) : graph.Coherent := by
  induction h with
  | build h => exact coherent_of_build h
  | rebuild tree path _ ih => exact ih.rebuild tree path
  | invalidate tree path _ ih => exact ih.invalidate tree path

end ImportGraph

end ApiImpact

/-!
## Well-formed import graphs

The four tables of a graph agree with each other, whatever happens to the files between one update and the
next. This is the coherence of graphs read off the tables, and it holds also where a walk has been stopped
by its budget.
-/

namespace ApiImpact.ImportGraph

variable {tree : FileTree} {settings : Settings} {root : Path} {graph : ImportGraph}

/-- The tables of the graph agree with each other. -/
structure WellFormed (graph : ImportGraph) : Prop where
  mem_importers_iff : ∀ importer target : Path,
    importer ∈ graph.importers[target]?.getD ∅ ↔ target ∈ graph.imports[importer]?.getD ∅
  importers_ne : ∀ target : Path, graph.importers[target]? ≠ some ∅
  imports_ne : ∀ importer : Path, graph.imports[importer]? ≠ some ∅
  references_ne : ∀ importer target : Path, (graph.imports[importer]?.getD ∅)[target]? ≠ some []
  no_self_import : ∀ file : Path, file ∉ graph.imports[file]?.getD ∅
  mem_files : ∀ file : Path, file ∈ graph.imports ∨ file ∈ graph.considered → file ∈ graph.files
  isRelative : ∀ importer target : Path, ∀ reference ∈ graph.references importer target,
    reference.isRelative = true
  considered : ∀ importer : Path, ∀ target ∈ graph.imports[importer]?.getD ∅,
    target ∈ graph.considered[importer]?.getD ∅

theorem Coherent.wellFormed (h : graph.Coherent) : graph.WellFormed where
  mem_importers_iff importer target := by
    rw [← mem_importersOf, h.mem_importersOf_iff, mem_importsOf_iff]
    rfl
  importers_ne := h.importers_ne
  imports_ne importer := (h.sound importer).imports_ne
  references_ne importer := (h.sound importer).references_ne
  no_self_import file := (h.sound file).self_notMem
  mem_files file hm := by
    refine (h.sound file).present ?_
    rwa [Std.ExtTreeMap.mem_iff_isSome_getElem?, Std.ExtTreeMap.mem_iff_isSome_getElem?] at hm
  isRelative importer := (h.sound importer).relative
  considered importer := (h.sound importer).considers

/-- A graph that is left by a walk which stops early: it holds some of the files. -/
def IsCutShort (tree : FileTree) (settings : Settings) (root : Path) (graph : ImportGraph) : Prop :=
  ∃ seen ⊆ walk tree settings (tree.depth + 1) root.normalize,
    graph = seen.foldl (addFile tree) { root := root.normalize, truncated := true }

theorem coherent_of_isCutShort (h : IsCutShort tree settings root graph) : graph.Coherent := by
  obtain ⟨seen, -, rfl⟩ := h
  exact (coherent_empty _ true).foldl (fun _ path hg => hg.addFile tree path) seen

/-- The graphs that any run of builds and updates leads to, each step with the files as they are then. -/
inductive Evolved : ImportGraph → Prop where
  | build {tree : FileTree} {settings : Settings} {root : Path} {graph : ImportGraph} :
      build? tree settings root = some graph → Evolved graph
  | stop {tree : FileTree} {settings : Settings} {root : Path} {graph : ImportGraph} :
      IsCutShort tree settings root graph → Evolved graph
  | rebuild {graph : ImportGraph} (tree : FileTree) (path : Path) :
      Evolved graph → Evolved (graph.rebuild tree path)
  | invalidate {graph : ImportGraph} (tree : FileTree) (path : Path) :
      Evolved graph → Evolved (graph.invalidate tree path)

theorem Evolved.coherent (h : graph.Evolved) : graph.Coherent := by
  induction h with
  | build h => exact coherent_of_build h
  | stop h => exact coherent_of_isCutShort h
  | rebuild tree path _ ih => exact ih.rebuild tree path
  | invalidate tree path _ ih => exact ih.invalidate tree path

/-- The tables of a graph agree with each other after every run of builds and updates. -/
theorem Evolved.tables_agree (h : graph.Evolved) : graph.WellFormed :=
  h.coherent.wellFormed

/-- An imported file is denied, then removed and given up, then its importer is changed. -/
theorem Evolved.tables_agree_of_denied :
    let tree := FileTree.ofTexts [("/p/a.ts", "import './b';\n"), ("/p/b.ts", "import './a';\n")]
    let denied := tree.deny (.ofString "/p/b.ts")
    let changed := (tree.remove (.ofString "/p/b.ts")).insert (.ofString "/p/a.ts") "import './c';\n"
    ∃ graph, build? tree {} (.ofString "/p") = some graph ∧
      (((graph.rebuild denied (.ofString "/p/b.ts")).invalidate changed (.ofString "/p/b.ts")).rebuild
        changed (.ofString "/p/a.ts")).WellFormed := by
  intro tree denied changed
  obtain ⟨graph, hg⟩ := Option.isSome_iff_exists.mp
    (by decide +kernel : (build? tree {} (.ofString "/p")).isSome = true)
  refine ⟨graph, hg, Evolved.tables_agree ?_⟩
  exact (((Evolved.build hg).rebuild denied _).invalidate changed _).rebuild changed _

end ApiImpact.ImportGraph
