import ApiImpact.Proofs.Project.Upkeep
import ApiImpact.Proofs.Project.Coherence

/-!
# What a built graph holds

The files of a built graph and the references between them, told by the files of the project alone. A path
that cannot be accessed takes what lies below it out of the graph, and nothing else.
-/

namespace ApiImpact

namespace FileEntry

variable {tree : FileTree} {path target : Path} {entry : FileEntry}

/-- The reference in the file at `path` stands for `target`: that is the first of its candidates that
exists. -/
def StandsFor (tree : FileTree) (path target : Path) (reference : ModuleReference) : Prop :=
  reference.isRelative = true ∧
    (Resolution.candidates path reference.specifier).find? tree.isFile = some target

instance (reference : ModuleReference) : Decidable (StandsFor tree path target reference) :=
  inferInstanceAs (Decidable (_ ∧ _))

theorem references_addReference (hne : target ≠ path) (reference : ModuleReference) :
    (entry.addReference tree path reference).references target =
      if Resolution.resolve? tree path reference.specifier = some target then
        entry.references target ++ [reference]
      else entry.references target := by
  unfold addReference
  have hkeep : (entry.consider (Resolution.candidates path reference.specifier)).references target =
      entry.references target := rfl
  cases hr : Resolution.resolve? tree path reference.specifier with
  | none => simp [hkeep]
  | some found =>
      by_cases hf : found = path
      · simp [hf, hkeep, hne.symm]
      · by_cases ht : target = found
        · subst ht
          simp [hf, references_link, hkeep]
        · simp [hf, references_link, hkeep, ht, Ne.symm ht]

/-- The references to a target are kept in the order in which they are taken in. -/
theorem references_foldl (hne : target ≠ path) (references : List ModuleReference) :
    (references.foldl (addReference tree path) entry).references target =
      entry.references target ++ references.filter fun reference =>
        Resolution.resolve? tree path reference.specifier = some target := by
  induction references generalizing entry with
  | nil => simp
  | cons reference rest ih =>
      rw [List.foldl_cons, ih, references_addReference hne]
      split_ifs with hr <;> simp [hr]

theorem references_ofFile {text : String} (hread : tree.read path = .ok text) (hne : target ≠ path) :
    (ofFile tree path).references target =
      (ModuleReference.extract text).filter fun reference => StandsFor tree path target reference := by
  have hstart : ({ absent with present := true } : FileEntry).references target = [] := rfl
  rw [ofFile_of_ok hread, addText, references_foldl hne, hstart, List.nil_append, List.filter_filter]
  refine List.filter_congr fun reference _ => ?_
  rw [Bool.eq_iff_iff, Bool.and_eq_true, decide_eq_true_iff, decide_eq_true_iff, and_comm, StandsFor,
    Resolution.resolve?_eq_find?]

end FileEntry

namespace ImportGraph

variable {tree : FileTree} {settings : Settings} {root path file : Path} {graph other : ImportGraph}

/-- A built graph holds the files that the walk finds and that can be read. -/
theorem Tracks.mem_files_iff (h : graph.Tracks tree settings root) (hw : tree.IsWritten) :
    file ∈ graph.files ↔ Finds tree settings root file ∧ tree.isDenied file = false := by
  change (graph.entry file).present = true ↔ _
  by_cases hf : Finds tree settings root file
  · have hfile : tree.isFile file = true :=
      (FileTree.isFile_iff (hw.isNormal hf.stored)).mpr hf.stored
    rw [h.entry_of_finds file hf, FileEntry.present_ofFile]
    simp [hf, hfile]
  · rw [h.entry_of_not_finds file hf]
    simp [hf, FileEntry.absent]

theorem Tracks.references_eq_filter (h : graph.Tracks tree settings root)
    (hf : Finds tree settings root file) {text : String} (hread : tree.read file = .ok text)
    {target : Path} (hne : target ≠ file) :
    graph.references file target = (ModuleReference.extract text).filter fun reference =>
      FileEntry.StandsFor tree file target reference := by
  rw [references_eq, h.entry_of_finds file hf, FileEntry.references_ofFile hread hne]

theorem finds_iff_of_isFlat (hw : tree.IsWritten) (hflat : tree.IsFlat) :
    Finds tree settings root file ↔ file ∈ tree.files ∧ file.isSource = true ∧
      isWalked settings root file = true ∧ IsOpen tree root file :=
  ⟨fun h => ⟨h.stored, h.source, h.walked, h.opened⟩, fun ⟨hs, hsource, hwalked, hopen⟩ =>
    ⟨hs, hsource, hflat.isDirectory_eq_false hw hs, hwalked, hopen⟩⟩

/-! ## Denied paths -/

theorem isDenied_deny_iff {directory : Path} : (tree.deny path).isDenied directory = false ↔
    tree.isDenied directory = false ∧ path.normalize ≠ directory.normalize := by
  simp only [FileTree.isDenied, FileTree.deny, Std.ExtTreeSet.contains_insert, Bool.or_eq_false_iff]
  rw [and_comm, beq_eq_false_iff_ne, ne_eq, Std.LawfulEqCmp.compare_eq_iff_eq]

/-- A denied path is open to a file that does not lie below it as it was before. -/
theorem isOpen_deny_iff (hn : file.IsNormal) (hu : ¬ path.normalize.isUnder file) :
    IsOpen (tree.deny path) root file ↔ IsOpen tree root file := by
  have hother {directory : Path} (hd : directory.isUnder file) :
      path.normalize ≠ directory.normalize := by
    rw [(hn.of_prefix_steps (Path.isUnder_iff.mp hd)).eq]
    rintro rfl
    exact hu hd
  constructor
  · intro h directory hl hr hne
    exact (isDenied_deny_iff.mp (h directory hl hr hne)).1
  · intro h directory hl hr hne
    exact isDenied_deny_iff.mpr ⟨h directory hl hr hne, hother hr⟩

theorem read_deny (hn : file.IsNormal) (hu : ¬ path.normalize.isUnder file) :
    (tree.deny path).read file = tree.read file := by
  have hne : path.normalize ≠ file.normalize := by
    rw [hn.eq]
    rintro rfl
    exact hu (Path.isUnder_iff.mpr List.prefix_rfl)
  have hdenied : (tree.deny path).isDenied file = tree.isDenied file := by
    rw [Bool.eq_iff_iff, ← not_iff_not, Bool.not_eq_true, Bool.not_eq_true, isDenied_deny_iff,
      and_iff_left hne]
  rw [FileTree.read, FileTree.read, hdenied]
  rfl

/-- Denying a path changes the entries of the files below it alone. -/
theorem Tracks.entry_deny (hw : tree.IsWritten) (h : graph.Tracks tree settings root)
    (ho : other.Tracks (tree.deny path) settings root) (hu : ¬ path.normalize.isUnder file) :
    other.entry file = graph.entry file := by
  have hfinds : Finds (tree.deny path) settings root file ↔ Finds tree settings root file := by
    constructor
    · rintro ⟨stored, source, single, walked, opened⟩
      exact ⟨stored, source, single, walked, (isOpen_deny_iff (hw.isNormal stored) hu).mp opened⟩
    · rintro ⟨stored, source, single, walked, opened⟩
      exact ⟨stored, source, single, walked, (isOpen_deny_iff (hw.isNormal stored) hu).mpr opened⟩
  by_cases hf : Finds tree settings root file
  · rw [h.entry_of_finds file hf, ho.entry_of_finds file (hfinds.mpr hf)]
    refine FileEntry.ofFile_congr (read_deny (hw.isNormal hf.stored) hu) fun reference _ => ?_
    exact Resolution.resolve?_congr fun _ _ => Iff.rfl
  · rw [h.entry_of_not_finds file hf, ho.entry_of_not_finds file (mt hfinds.mp hf)]

/-- A project can be built, and the graph is what the files say: it holds the readable source files that no
skipped or denied directory hides, and for any two of its files the references that stand for the second in
the text of the first. A path that is denied in addition changes the entries of the files below it alone. -/
theorem build_exact (hwritten : tree.IsWritten) (hflat : tree.IsFlat)
    (hbudget : settings.walkBudget = none) (hroot : tree.isDirectory root = true) :
    ∃ graph, build? tree settings root = some graph ∧ graph.WellFormed ∧
      (∀ file, file ∈ graph.files ↔ file ∈ tree.files ∧ tree.isDenied file = false ∧
        file.isSource = true ∧ isWalked settings root.normalize file = true ∧
        IsOpen tree root.normalize file) ∧
      (∀ file ∈ graph.files, ∃ text, tree.files[file]? = some text ∧ ∀ target ≠ file,
        graph.references file target = (ModuleReference.extract text).filter fun reference =>
          FileEntry.StandsFor tree file target reference) ∧
      ∀ path, ∃ other, build? (tree.deny path) settings root = some other ∧
        ∀ file, ¬ path.normalize.isUnder file → other.entry file = graph.entry file := by
  have hb : settings.walkBudget ≠ some 0 := by simp [hbudget]
  have hbuild (tree : FileTree) (hroot : tree.isDirectory root = true) :
      ∃ graph, build? tree settings root = some graph := ⟨_, (build?_eq_some_iff hb).mpr ⟨hroot, rfl⟩⟩
  obtain ⟨graph, hg⟩ := hbuild tree hroot
  have htracks := tracks_of_build hwritten hb hg
  have hmem (file : Path) : file ∈ graph.files ↔
      Finds tree settings root.normalize file ∧ tree.isDenied file = false :=
    htracks.mem_files_iff hwritten
  refine ⟨graph, hg, htracks.wellFormed, fun file => ?_, fun file hf => ?_, fun path => ?_⟩
  · rw [hmem, finds_iff_of_isFlat hwritten hflat]
    tauto
  · obtain ⟨hfinds, hdenied⟩ := (hmem file).mp hf
    obtain ⟨text, htext⟩ := Option.isSome_iff_exists.mp
      (Std.ExtTreeMap.mem_iff_isSome_getElem?.mp hfinds.stored)
    have hread : tree.read file = .ok text :=
      FileTree.read_eq_ok_iff.mpr ⟨hdenied, by rw [(hwritten.isNormal hfinds.stored).eq, htext]⟩
    exact ⟨text, htext, fun target hne => htracks.references_eq_filter hfinds hread hne⟩
  · obtain ⟨other, ho⟩ := hbuild (tree.deny path) hroot
    have htracks' : other.Tracks (tree.deny path) settings root.normalize :=
      tracks_of_build (fun file hf => hwritten file hf) hb ho
    exact ⟨other, ho, fun file hu => htracks.entry_deny hwritten htracks' hu⟩

/-- A file refers to another one by the name of the script it is compiled to, next to a directory that is
denied. -/
theorem build_exact_of_denied :
    let tree := (FileTree.ofTexts [("/p/a.ts", "import './b.js';\n"),
      ("/p/b.ts", ""), ("/p/lib/c.ts", "import '../b';\n")]).deny (.ofString "/p/lib")
    ∃ graph, build? tree {} (.ofString "/p") = some graph ∧ .ofString "/p/lib/c.ts" ∉ graph.files ∧
      graph.references (.ofString "/p/a.ts") (.ofString "/p/b.ts") =
        [.static "./b.js" 1 false false []] := by
  intro tree
  have hwritten : tree.IsWritten := fun file hf => FileTree.isWritten_ofTexts _ file hf
  obtain ⟨graph, hg, -, hfiles, hreferences, -⟩ :=
    @build_exact tree {} (.ofString "/p") hwritten (by decide +kernel) rfl (by decide +kernel)
  refine ⟨graph, hg, fun hm => ?_, ?_⟩
  · obtain ⟨-, -, -, -, hopen⟩ := (hfiles _).mp hm
    exact absurd (hopen (.ofString "/p/lib") (by decide) (by decide) (by decide)) (by decide +kernel)
  · have hany : (build? tree {} (.ofString "/p")).any
        (fun graph => graph.files.contains (.ofString "/p/a.ts")) = true := by decide +kernel
    rw [hg, Option.any_some] at hany
    obtain ⟨text, htext, hreferences⟩ := hreferences _ hany
    have hstored : tree.files[Path.ofString "/p/a.ts"]? =
         some "import './b.js';\n" := by decide +kernel
    obtain rfl := Option.some.inj (hstored.symm.trans htext)
    rw [hreferences _ (by decide)]
    decide +kernel

end ImportGraph

end ApiImpact
