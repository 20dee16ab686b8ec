import ApiImpact.Proofs.Impact.Deletion

/-!
# Updates beyond the walk

A walk stays below its root and out of skipped directories, an update does not. It takes in any source file
that it is told of, so a graph keeps to the files of the walk just as long as it is told of no others. And it
follows a removal just if the graph held the file: a file outside of the walk is imported without being
held, and when it is gone the edges to it stay.
-/

namespace ApiImpact

/-- There is a source file at `path` that can be read. -/
def FileTree.offers (tree : FileTree) (path : Path) : Bool :=
  tree.isFile path && path.isSource && !tree.isDenied path

/-- What a graph is told: which file may have changed, and the files as they are at the time. -/
structure Notice where
  tree : FileTree
  path : Path

namespace FileEntry

variable {tree : FileTree} {path : Path}

theorem ofSource_of_not_isFile (h : tree.isFile path = false) : ofSource tree path = .absent := by
  simp [ofSource, h]

theorem present_ofSource : (ofSource tree path).present = tree.offers path := by
  unfold ofSource FileTree.offers
  cases hp : tree.isFile path && path.isSource with
  | false => rfl
  | true =>
      have hfile : tree.isFile path = true := (Bool.and_eq_true_iff.mp hp).1
      rw [if_pos rfl, present_ofFile, hfile]

end FileEntry

namespace ImportGraph

variable {tree new : FileTree} {graph : ImportGraph} {settings : Settings}
  {root path gone file importer : Path}

theorem Coherent.mem_files (h : graph.Coherent) (he : graph.entry file ≠ .absent) : file ∈ graph.files := by
  by_contra hout
  have hpresent : (graph.entry file).present = false := Bool.eq_false_iff.mpr hout
  refine he (FileEntry.ext ?_ ?_ hpresent)
  · exact Option.not_isSome_iff_eq_none.mp fun hs => by simp [(h.sound file).present (.inl hs)] at hpresent
  · exact Option.not_isSome_iff_eq_none.mp fun hs => by simp [(h.sound file).present (.inr hs)] at hpresent

/-! ## Taking files in -/

/-- The graph after it is told. -/
def tell (graph : ImportGraph) (notice : Notice) : ImportGraph :=
  graph.rebuild notice.tree notice.path

/-- A walk from `root` heads for all files of the graph. -/
def Within (settings : Settings) (root : Path) (graph : ImportGraph) : Prop :=
  ∀ file ∈ graph.files, isWalked settings root file = true

theorem within_of_build (hw : tree.IsWritten) (hbuild : build? tree settings root = some graph) :
    Within settings root.normalize graph := by
  intro file hf
  refine (finds_of_build hw hbuild fun habsent => ?_).2.walked
  have hpresent : (graph.entry file).present = true := hf
  simp [habsent, FileEntry.absent] at hpresent

theorem key_rebuild (other : Path) : (graph.rebuild tree path).key other = graph.key other := by
  have hroot : (graph.rebuild tree path).root = graph.root := congrArg Prod.fst (header_rebuild path)
  rw [key, key, hroot]

/-- After an update the graph holds the file it is told of just if there is one to be read. -/
theorem Coherent.key_mem_files_rebuild_iff (h : graph.Coherent) :
    graph.key path ∈ (graph.rebuild tree path).files ↔ tree.offers (graph.key path) = true := by
  change ((graph.rebuild tree path).entry (graph.key path)).present = true ↔ _
  rw [h.entry_rebuild (refl (graph.key path)), if_pos rfl, FileEntry.present_ofSource]

/-- An update adds no file but the one that the graph is told of: a file that is read again was there. -/
theorem Coherent.mem_files_of_rebuild (h : graph.Coherent) (hne : file ≠ graph.key path)
    (hf : file ∈ (graph.rebuild tree path).files) : file ∈ graph.files := by
  have hpresent : ((graph.rebuild tree path).entry file).present = true := hf
  rw [h.entry_rebuild (refl (graph.key path)), if_neg hne] at hpresent
  split_ifs at hpresent with hc
  · exact h.mem_files (ne_absent_of_considers hc.2)
  · exact hpresent

theorem Coherent.within_rebuild_iff (h : graph.Coherent) (hwithin : Within settings root graph) :
    Within settings root (graph.rebuild tree path) ↔
      (tree.offers (graph.key path) = true → isWalked settings root (graph.key path) = true) := by
  constructor
  · intro hafter hoffers
    exact hafter _ (h.key_mem_files_rebuild_iff.mpr hoffers)
  · intro hkey file hf
    by_cases he : file = graph.key path
    · subst he
      exact hkey (h.key_mem_files_rebuild_iff.mp hf)
    · exact hwithin file (h.mem_files_of_rebuild he hf)

/-- The graph keeps to the walk through a run of updates just if the run stays within the walk. -/
theorem Coherent.within_run_iff (h : graph.Coherent) (hwithin : Within settings root graph)
    (notices : List Notice) :
    (∀ done, done <+: notices → Within settings root (done.foldl tell graph)) ↔
      ∀ notice ∈ notices, notice.tree.offers (graph.key notice.path) = true →
        isWalked settings root (graph.key notice.path) = true := by
  induction notices generalizing graph with
  | nil => simpa using hwithin
  | cons notice rest ih =>
      have hstep : Within settings root (graph.tell notice) ↔ _ := h.within_rebuild_iff hwithin
      have hrest (hnext : Within settings root (graph.tell notice)) :=
        ih (h.rebuild notice.tree notice.path) hnext
      simp only [key_rebuild, tell] at hrest
      rw [List.forall_mem_cons]
      constructor
      · intro hall
        have hnext : Within settings root (graph.tell notice) := hall [notice] (by simp)
        refine ⟨hstep.mp hnext, (hrest hnext).mp fun done hd => ?_⟩
        exact hall (notice :: done) (List.cons_prefix_cons.mpr ⟨rfl, hd⟩)
      · rintro ⟨hnotice, hothers⟩ done hd
        rcases List.prefix_cons_iff.mp hd with rfl | ⟨before, rfl, hbefore⟩
        · exact hwithin
        · exact (hrest (hstep.mpr hnotice)).mpr hothers before hbefore

/-- After a build and any run of updates all files lie below the root and in no skipped directory, at all
times, just if that holds of every readable source file that the graph is told of. -/
theorem files_walked_iff (hwritten : tree.IsWritten) (hbuild : build? tree settings root = some graph)
    (notices : List Notice) :
    (∀ done, done <+: notices → ∀ file ∈ (done.foldl tell graph).files,
        isWalked settings root.normalize file = true) ↔
      ∀ notice ∈ notices, notice.tree.offers (graph.key notice.path) = true →
        isWalked settings root.normalize (graph.key notice.path) = true :=
  (coherent_of_build hbuild).within_run_iff (within_of_build hwritten hbuild) notices

/-- The graph is told of a file in a directory of packages. -/
theorem files_not_walked :
    let tree := FileTree.ofTexts [("/p/src/a.ts", ""), ("/p/node_modules/lib/u.ts", "export const u = 1;\n")]
    ∃ graph, build? tree {} (.ofString "/p") = some graph ∧
      ¬ ∀ done, done <+: [Notice.mk tree (.ofString "/p/node_modules/lib/u.ts")] →
        ∀ file ∈ (done.foldl tell graph).files, isWalked {} (Path.ofString "/p").normalize file = true := by
  intro tree
  obtain ⟨graph, hg⟩ := Option.isSome_iff_exists.mp
    (by decide +kernel : (build? tree {} (.ofString "/p")).isSome = true)
  refine ⟨graph, hg, fun hall => ?_⟩
  have hkey : graph.key (.ofString "/p/node_modules/lib/u.ts") = _ := key_of_absolute (by decide +kernel)
  have hnotice := (files_walked_iff (FileTree.isWritten_ofTexts _) hg _).mp hall _ List.mem_cons_self
  rw [hkey] at hnotice
  exact absurd (hnotice (by decide +kernel)) (by decide +kernel)

/-! ## Importers of a removed file -/

theorem Coherent.considers_of_importer (h : graph.Coherent) (hi : importer ∈ graph.importersOf gone) :
    importer ≠ gone ∧ (graph.entry importer).Considers gone := by
  have himport := mem_importsOf_iff.mp ((h.mem_importersOf_iff gone importer).mp hi)
  refine ⟨?_, (h.sound importer).considers gone himport⟩
  rintro rfl
  exact (h.sound importer).self_notMem himport

/-- What is imported in a graph as it was drawn is a file. -/
theorem Drawn.mem_files_of_importer (h : graph.Drawn tree) (hi : importer ∈ graph.importersOf gone) :
    gone ∈ tree.files := by
  have himport := mem_importsOf_iff.mp ((h.mem_importersOf_iff gone importer).mp hi)
  rw [h.entry_eq importer (ne_absent_of_considers (h.toCoherent.considers_of_importer hi).2),
    FileEntry.mem_targets_ofFile_iff] at himport
  obtain ⟨-, reference, -, hres⟩ := himport
  exact Resolution.mem_files_of_resolve hres

theorem finds_of_importer (hw : tree.IsWritten) (hbuild : build? tree settings root = some graph)
    (hi : importer ∈ graph.importersOf gone) :
    settings.walkBudget ≠ some 0 ∧ Finds tree settings root.normalize importer :=
  finds_of_build hw hbuild
    (ne_absent_of_considers ((coherent_of_build hbuild).considers_of_importer hi).2)

theorem Finds.isDirectory (h : Finds tree settings root.normalize file) : tree.isDirectory root = true := by
  have hn := Path.isNormal_normalize root
  have hsame : tree.isDirectory root = tree.isDirectory root.normalize := by
    simp only [FileTree.isDirectory, hn.eq]
  obtain ⟨inner, hs, hne, -⟩ := isWalked_iff.mp h.walked
  rw [hsame, FileTree.isDirectory_iff hn]
  refine ⟨file, h.stored, ?_, ⟨inner, hs.symm⟩⟩
  rintro rfl
  exact hne (by simpa using hs)

/-- After the removal the project can still be built, and the importers say what they say now. -/
theorem exists_build_remove (hw : tree.IsWritten) (hbuild : build? tree settings root = some graph)
    (hn : gone.IsNormal) (hi : graph.importersOf gone ≠ []) :
    ∃ fresh, build? (tree.remove gone) settings root = some fresh ∧
      ∀ importer ∈ graph.importersOf gone, fresh.entry importer = .ofFile (tree.remove gone) importer := by
  have hdrawn := drawn_of_build hw hbuild
  have hagree : tree.AgreesOff (tree.remove gone) [gone] := by
    simpa only [hn.eq] using tree.agreesOff_remove gone
  have hfinds {importer : Path} (hi : importer ∈ graph.importersOf gone) :
      Finds (tree.remove gone) settings root.normalize importer :=
    (finds_of_importer hw hbuild hi).2.of_agreesOff hw hagree
      (hdrawn.toCoherent.considers_of_importer hi).1 (hdrawn.mem_files_of_importer hi)
  obtain ⟨importer, hm⟩ := List.exists_mem_of_ne_nil _ hi
  have hb := (finds_of_importer hw hbuild hm).1
  refine ⟨_, (build?_eq_some_iff hb).mpr ⟨(hfinds hm).isDirectory, rfl⟩, fun importer hi => ?_⟩
  refine (tracks_of_build (hw.remove gone) hb ?_).entry_of_finds importer (hfinds hi)
  exact (build?_eq_some_iff hb).mpr ⟨(hfinds hm).isDirectory, rfl⟩

/-- The update for a file that is neither there nor in the graph leaves the graph as it is. -/
theorem Coherent.rebuild_eq_self (h : graph.Coherent) (hgone : new.isFile (graph.key path) = false)
    (hout : graph.key path ∉ graph.files) : graph.rebuild new path = graph := by
  refine (h.rebuild new path).ext h (header_rebuild path) fun other => ?_
  rw [h.entry_rebuild (refl (graph.key path))]
  have hheld : graph.files.contains (graph.key path) = false := Bool.eq_false_iff.mpr hout
  split_ifs with he hc
  · rw [he, FileEntry.ofSource_of_not_isFile hgone]
    exact (not_imp_comm.mp h.mem_files hout).symm
  · exact absurd (by rw [hheld, hgone, Bool.false_and]) hc.1
  · rfl

/-- The update for a file that is gone from the graph reads its importers again. -/
theorem Coherent.entry_rebuild_of_importer (h : graph.Coherent)
    (hgone : new.isFile (graph.key path) = false) (hin : graph.key path ∈ graph.files)
    (hi : importer ∈ graph.importersOf (graph.key path)) :
    (graph.rebuild new path).entry importer = .ofFile new importer := by
  obtain ⟨hne, hc⟩ := h.considers_of_importer hi
  have hheld : graph.files.contains (graph.key path) = true := hin
  rw [h.entry_rebuild (refl (graph.key path)), if_neg hne, if_pos]
  exact ⟨by rw [hheld, hgone]; simp, hc⟩

/-- Nobody imports a removed file that the graph held. -/
theorem Drawn.importersOf_rebuild_eq_nil (h : graph.Drawn tree)
    (hgone : new.isFile (graph.key path) = false) (hin : graph.key path ∈ graph.files) :
    (graph.rebuild new path).importersOf (graph.key path) = [] := by
  have hcoherent := h.toCoherent
  rw [List.eq_nil_iff_forall_not_mem]
  intro importer hi
  have himport := ((hcoherent.rebuild new path).mem_importersOf_iff _ importer).mp hi
  have hn : (graph.key path).IsNormal := isNormal_key path
  rw [mem_importsOf_iff] at himport
  have hnot : graph.key path ∉ (FileEntry.ofFile new importer).targets := by
    rw [FileEntry.mem_targets_ofFile_iff]
    rintro ⟨-, reference, -, hres⟩
    exact (FileTree.isFile_eq_false_iff hn).mp hgone (Resolution.mem_files_of_resolve hres)
  by_cases hbefore : importer ∈ graph.importersOf (graph.key path)
  · rw [hcoherent.entry_rebuild_of_importer hgone hin hbefore] at himport
    exact hnot himport
  · rw [hcoherent.mem_importersOf_iff, mem_importsOf_iff] at hbefore
    rw [hcoherent.entry_rebuild (refl (graph.key path)), FileEntry.ofSource_of_not_isFile hgone] at himport
    split_ifs at himport
    · simp at himport
    · exact hnot himport
    · exact hbefore himport

/-- When an imported file is removed and the graph is told so, no importer of it is left, and its former
importers have the imports of a fresh build, just when the graph held the file. Otherwise the graph stays as
it was. -/
theorem removal_followed_iff (hwritten : tree.IsWritten) (hbuild : build? tree settings root = some graph)
    (himported : graph.importersOf (graph.key path) ≠ []) :
    ∃ fresh, build? (tree.remove (graph.key path)) settings root = some fresh ∧
      ((graph.rebuild (tree.remove (graph.key path)) path).importersOf (graph.key path) = [] ↔
        graph.key path ∈ graph.files) ∧
      (∀ importer ∈ graph.importersOf (graph.key path),
        (graph.rebuild (tree.remove (graph.key path)) path).imports[importer]? = fresh.imports[importer]? ↔
          graph.key path ∈ graph.files) ∧
      (graph.key path ∉ graph.files → graph.rebuild (tree.remove (graph.key path)) path = graph) := by
  have hdrawn := drawn_of_build hwritten hbuild
  have hn : (graph.key path).IsNormal := isNormal_key path
  have hgone : (tree.remove (graph.key path)).isFile (graph.key path) = false := by
    simp [FileTree.isFile, FileTree.remove]
  obtain ⟨fresh, hfresh, hentry⟩ := exists_build_remove hwritten hbuild hn himported
  have hstays : graph.key path ∉ graph.files → graph.rebuild (tree.remove (graph.key path)) path = graph :=
    hdrawn.toCoherent.rebuild_eq_self hgone
  refine ⟨fresh, hfresh, ⟨fun hnil => ?_, hdrawn.importersOf_rebuild_eq_nil hgone⟩,
    fun importer hi => ⟨fun himports => ?_, fun hin => ?_⟩, hstays⟩
  · by_contra hout
    rw [hstays hout] at hnil
    exact himported hnil
  · by_contra hout
    rw [hstays hout] at himports
    have hmem : graph.key path ∈ graph.importsOf importer :=
      (hdrawn.mem_importersOf_iff _ importer).mp hi
    have hdrawn' := drawn_of_build (hwritten.remove _) hfresh
    refine hdrawn'.notMem_importsOf hn hgone importer ?_
    rwa [importsOf, ← himports]
  · have hread := hdrawn.toCoherent.entry_rebuild_of_importer hgone hin hi
    exact congrArg FileEntry.imports (hread.trans (hentry importer hi).symm)

/-- A file in a directory of packages is removed that a source file imports. -/
theorem removal_not_followed :
    let tree := FileTree.ofTexts [("/p/src/a.ts", "import '../node_modules/lib/u';\n"),
      ("/p/node_modules/lib/u.ts", "export const u = 1;\n")]
    let gone := Path.ofString "/p/node_modules/lib/u.ts"
    ∃ graph, build? tree {} (.ofString "/p") = some graph ∧
      (graph.rebuild (tree.remove gone) gone).importersOf gone = [.ofString "/p/src/a.ts"] := by
  intro tree gone
  have hsome : (build? tree {} (.ofString "/p")).isSome = true := by decide +kernel
  let graph := (build? tree {} (.ofString "/p")).getD {}
  have hg : build? tree {} (.ofString "/p") = some graph := by
    rw [← Option.some_get hsome, Option.get_eq_getD]
  have hkey : graph.key gone = gone := (key_of_absolute (by decide +kernel)).trans (by decide +kernel)
  have himporters : graph.importersOf gone = [.ofString "/p/src/a.ts"] := by decide +kernel
  have himported : graph.importersOf (graph.key gone) ≠ [] := by
    rw [hkey, himporters]
    simp
  obtain ⟨-, -, -, -, hstays⟩ :=
    removal_followed_iff (FileTree.isWritten_ofTexts _) hg himported
  rw [hkey] at hstays
  refine ⟨graph, hg, ?_⟩
  rw [hstays (by decide +kernel), himporters]

end ImportGraph

end ApiImpact
