import ApiImpact.Proofs.Project.Coherence
import ApiImpact.Proofs.Project.Walk

/-!
# Entries of built and updated graphs

A graph that is built holds, for every file that the walk finds, what the file says now. An update reads
the file again, and those that take it into consideration if the file appeared or disappeared.
-/

namespace ApiImpact

namespace FileEntry

variable {tree other : FileTree} {entry : FileEntry} {path target : Path}

/-- `reference` is one of the relative references in the file at `path`. -/
def Refers (tree : FileTree) (path : Path) (reference : ModuleReference) : Prop :=
  ∃ text, tree.read path = .ok text ∧ reference ∈ ModuleReference.extract text ∧
    reference.isRelative = true

/-- The entry of the source file at `path`, as it is read now. -/
def ofSource (tree : FileTree) (path : Path) : FileEntry :=
  if tree.isFile path && path.isSource then ofFile tree path else absent

theorem considers_addReference_iff {reference : ModuleReference} :
    (entry.addReference tree path reference).Considers target ↔
      entry.Considers target ∨ target ∈ Resolution.candidates path reference.specifier := by
  have hc : (entry.consider (Resolution.candidates path reference.specifier)).Considers target ↔
      entry.Considers target ∨ target ∈ Resolution.candidates path reference.specifier := by
    simp [Considers, consider]
  rw [← hc, addReference]
  cases Resolution.resolve? tree path reference.specifier with
  | none => rfl
  | some found => by_cases hf : found = path <;> simp [hf, link, Considers]

theorem mem_targets_addReference_iff {reference : ModuleReference} :
    target ∈ (entry.addReference tree path reference).targets ↔ target ∈ entry.targets ∨
      target ≠ path ∧ Resolution.resolve? tree path reference.specifier = some target := by
  rw [addReference]
  cases Resolution.resolve? tree path reference.specifier with
  | none => simp [consider, targets]
  | some found =>
      have hk : (entry.consider (Resolution.candidates path reference.specifier)).targets =
          entry.targets := rfl
      by_cases hf : found = path
      · simp [hf, hk, eq_comm]
      · simp only [hf, if_false, mem_targets_link, hk, Option.some.injEq]
        grind

theorem considers_foldl_iff {references : List ModuleReference} :
    (references.foldl (addReference tree path) entry).Considers target ↔ entry.Considers target ∨
      ∃ reference ∈ references, target ∈ Resolution.candidates path reference.specifier := by
  induction references generalizing entry with
  | nil => simp
  | cons reference rest ih =>
      rw [List.foldl_cons, ih, considers_addReference_iff, or_assoc, List.exists_mem_cons_iff]

theorem mem_targets_foldl_iff {references : List ModuleReference} :
    target ∈ (references.foldl (addReference tree path) entry).targets ↔ target ∈ entry.targets ∨
      target ≠ path ∧ ∃ reference ∈ references,
        Resolution.resolve? tree path reference.specifier = some target := by
  induction references generalizing entry with
  | nil => simp
  | cons reference rest ih =>
      rw [List.foldl_cons, ih, mem_targets_addReference_iff, or_assoc, List.exists_mem_cons_iff,
        and_or_left]

theorem present_foldl {references : List ModuleReference} :
    (references.foldl (addReference tree path) entry).present = entry.present :=
  List.foldlRecOn (motive := fun e : FileEntry => e.present = entry.present) _ _ rfl
    fun e he reference _ => by rw [present_addReference, he]

/-! ## The entry of a file -/

theorem ofFile_of_ok {text : String} (h : tree.read path = .ok text) :
    ofFile tree path = absent.addText tree path text := by
  simp [ofFile, h]

theorem ofFile_of_error {cause : FileError} (h : tree.read path = .error cause) :
    ofFile tree path = absent := by
  simp [ofFile, h]

theorem ofFile_of_isFile (h : tree.isFile path = false) : ofFile tree path = absent := by
  have hnone : tree.files[path.normalize]? = none := by
    rwa [FileTree.isFile, Std.ExtTreeMap.contains_eq_isSome_getElem?, Option.isSome_eq_false_iff,
      Option.isNone_iff_eq_none] at h
  unfold ofFile FileTree.read
  rw [hnone]
  cases tree.isDenied path <;> rfl

theorem present_ofFile :
    (ofFile tree path).present = (tree.isFile path && !tree.isDenied path) := by
  unfold ofFile FileTree.read FileTree.isFile
  cases hd : tree.isDenied path <;> cases hg : tree.files[path.normalize]? <;>
    simp_all [absent, addText, present_foldl, Std.ExtTreeMap.contains_eq_isSome_getElem?]

/-- A file takes into consideration whatever its references may stand for. -/
theorem considers_ofFile_iff :
    (ofFile tree path).Considers target ↔ ∃ reference, Refers tree path reference ∧
      target ∈ Resolution.candidates path reference.specifier := by
  cases hr : tree.read path with
  | error cause => simp [ofFile_of_error hr, Refers, hr, absent, Considers]
  | ok text =>
      rw [ofFile_of_ok hr, addText, considers_foldl_iff]
      simp [Refers, hr, absent, Considers]

/-- A file imports whatever its references stand for. -/
theorem mem_targets_ofFile_iff :
    target ∈ (ofFile tree path).targets ↔ target ≠ path ∧ ∃ reference, Refers tree path reference ∧
      Resolution.resolve? tree path reference.specifier = some target := by
  cases hr : tree.read path with
  | error cause => simp [ofFile_of_error hr, Refers, hr]
  | ok text =>
      rw [ofFile_of_ok hr, addText, mem_targets_foldl_iff]
      simp [Refers, hr, absent, targets]

/-- The entry of a file depends on its text and on what its references stand for. -/
theorem ofFile_congr (hread : tree.read path = other.read path)
    (h : ∀ reference, Refers tree path reference →
      Resolution.resolve? tree path reference.specifier =
        Resolution.resolve? other path reference.specifier) :
    ofFile tree path = ofFile other path := by
  cases hr : tree.read path with
  | error cause => rw [ofFile_of_error hr, ofFile_of_error (hread ▸ hr)]
  | ok text =>
      rw [ofFile_of_ok hr, ofFile_of_ok (hread ▸ hr), addText, addText]
      refine List.foldl_ext _ _ _ fun entry reference hm => ?_
      obtain ⟨hm, hrel⟩ := List.mem_filter.mp hm
      simp only [addReference, h reference ⟨text, hr, hm, hrel⟩]

theorem Refers.of_agreesOff {changed : List Path} {reference : ModuleReference}
    (h : Refers tree path reference) (hagree : tree.AgreesOff other changed) (hn : path.IsNormal)
    (hp : path ∉ changed) : Refers other path reference := by
  obtain ⟨text, hread, hm⟩ := h
  exact ⟨text, by rwa [← hagree.read_eq hn hp], hm⟩

/-- A file keeps its entry when others change that it does not take into consideration. -/
theorem ofFile_eq_of_agreesOff {changed : List Path} (h : tree.AgreesOff other changed)
    (hn : path.IsNormal) (hp : path ∉ changed)
    (hc : ∀ file ∈ changed, (file ∈ tree.files ↔ file ∈ other.files) ∨
      ¬ (ofFile tree path).Considers file) :
    ofFile tree path = ofFile other path := by
  refine ofFile_congr (h.read_eq hn hp) fun reference hr => Resolution.resolve?_congr fun file hf => ?_
  by_cases hm : file ∈ changed
  · exact (hc file hm).resolve_right (not_not.mpr (considers_ofFile_iff.mpr ⟨reference, hr, hf⟩))
  · exact h.mem_iff hm

theorem ofSource_of_isSource (h : path.isSource = true) : ofSource tree path = ofFile tree path := by
  rw [ofSource, h, Bool.and_true]
  split_ifs with hf
  · rfl
  · rw [ofFile_of_isFile (Bool.eq_false_iff.mpr hf)]

end FileEntry

namespace ImportGraph

variable {tree : FileTree} {graph : ImportGraph} {settings : Settings} {root path : Path}

/-! ## Building -/

/-- The graph holds what a walk from `root` finds, and nothing else. -/
structure Tracks (tree : FileTree) (settings : Settings) (root : Path) (graph : ImportGraph) : Prop
    extends Coherent graph where
  header : graph.header = (root, false)
  entry_of_finds : ∀ file, Finds tree settings root file → graph.entry file = .ofFile tree file
  entry_of_not_finds : ∀ file, ¬ Finds tree settings root file → graph.entry file = .absent

theorem entry_foldl_addFile (tree : FileTree) {files : List Path} (hn : ∀ file ∈ files, file.IsNormal)
    (hd : files.Nodup) (h : ∀ file ∈ files, graph.entry file = .absent) (other : Path) :
    (files.foldl (addFile tree) graph).entry other =
      if other ∈ files then .ofFile tree other else graph.entry other := by
  induction files generalizing graph with
  | nil => simp
  | cons file rest ih =>
      obtain ⟨hfile, hrest⟩ := List.nodup_cons.mp hd
      have hne : ∀ next ∈ rest, next ≠ file := fun next hm he => hfile (he ▸ hm)
      rw [List.foldl_cons, ih (fun next hm => hn next (by simp [hm])) hrest fun next hm => by
        rw [entry_addFile_of_ne (hn file (by simp)) (hne next hm), h next (by simp [hm])]]
      by_cases he : other = file
      · subst he
        simp [hfile, entry_addFile_self (hn other (by simp)) (h other (by simp))]
      · simp [he, entry_addFile_of_ne (hn file (by simp)) he]

theorem build?_eq_some_iff (hb : settings.walkBudget ≠ some 0) :
    build? tree settings root = some graph ↔ tree.isDirectory root = true ∧
      graph = (walk tree settings (tree.depth + 1) root.normalize).foldl (addFile tree)
        { root := root.normalize } := by
  cases hd : tree.isDirectory root <;> simp [build?, hd, hb, eq_comm]

/-- A built graph holds what the walk finds. -/
theorem tracks_of_build (hw : tree.IsWritten) (hb : settings.walkBudget ≠ some 0)
    (h : build? tree settings root = some graph) : graph.Tracks tree settings root.normalize := by
  obtain ⟨-, rfl⟩ := (build?_eq_some_iff hb).mp h
  have hroot := Path.isNormal_normalize root
  have hmem (file : Path) : file ∈ walk tree settings (tree.depth + 1) root.normalize ↔
      Finds tree settings root.normalize file := mem_walk_depth_iff hw hroot
  have hentry := entry_foldl_addFile tree (fun file hm => hw.isNormal ((hmem file).mp hm).stored)
    (nodup_walk hw _ hroot) fun file _ => entry_empty root.normalize false file
  refine ⟨coherent_of_build h, header_foldl (fun _ file => header_addFile file) _, ?_, ?_⟩
  · intro file hf
    rw [hentry, if_pos ((hmem file).mpr hf)]
  · intro file hf
    rw [hentry, if_neg (mt (hmem file).mp hf), entry_empty]

/-- Two graphs that hold the same files of the same tree are equal. -/
theorem Tracks.eq {other : ImportGraph} (h : graph.Tracks tree settings root)
    (ho : other.Tracks tree settings root) : graph = other := by
  refine h.toCoherent.ext ho.toCoherent (by rw [h.header, ho.header]) fun file => ?_
  by_cases hf : Finds tree settings root file
  · rw [h.entry_of_finds file hf, ho.entry_of_finds file hf]
  · rw [h.entry_of_not_finds file hf, ho.entry_of_not_finds file hf]

/-- The graph holds what the files say in `tree`, of those that it holds. -/
structure Drawn (tree : FileTree) (graph : ImportGraph) : Prop extends Coherent graph where
  entry_eq : ∀ file, graph.entry file ≠ .absent → graph.entry file = .ofFile tree file

theorem drawn_of_build (hw : tree.IsWritten) (h : build? tree settings root = some graph) :
    graph.Drawn tree := by
  by_cases hb : settings.walkBudget = some 0
  · refine ⟨coherent_of_build h, fun file hf => ?_⟩
    simp only [build?, hb] at h
    split_ifs at h
    cases h
    exact absurd (entry_empty _ true file) hf
  · have htracks := tracks_of_build hw hb h
    refine ⟨htracks.toCoherent, fun file hf => htracks.entry_of_finds file ?_⟩
    exact not_imp_comm.mp (htracks.entry_of_not_finds file) hf

/-- What a built graph holds is what its walk found. -/
theorem finds_of_build (hw : tree.IsWritten) (h : build? tree settings root = some graph) {file : Path}
    (hf : graph.entry file ≠ .absent) :
    settings.walkBudget ≠ some 0 ∧ Finds tree settings root.normalize file := by
  by_cases hb : settings.walkBudget = some 0
  · simp only [build?, hb] at h
    split_ifs at h
    cases h
    exact absurd (entry_empty _ true file) hf
  · exact ⟨hb, not_imp_comm.mp ((tracks_of_build hw hb h).entry_of_not_finds file) hf⟩

theorem ne_absent_of_considers {file other : Path} (h : (graph.entry file).Considers other) :
    graph.entry file ≠ .absent := by
  intro he
  simp [he, FileEntry.absent, FileEntry.Considers] at h

/-! ## Updating -/

theorem Coherent.entry_refresh (h : graph.Coherent) (path other : Path) :
    (graph.refresh tree path).entry other =
      if other ≠ path ∧ (graph.entry other).Considers path then .ofFile tree other
      else graph.entry other := by
  have hn : ∀ dependent ∈ graph.dependentsOn path, dependent.IsNormal := by
    intro dependent hm
    obtain ⟨-, hc⟩ := mem_dependentsOn_iff.mp hm
    exact (h.sound dependent).normal (ne_absent_of_considers hc)
  rw [ImportGraph.refresh, entry_foldl_reread hn]
  simp only [mem_dependentsOn_iff]

theorem isNormal_key (path : Path) : (graph.key path).IsNormal := Path.isNormal_normalize _

theorem key_of_absolute {path : Path} (h : path.absolute = true) : graph.key path = path.normalize := by
  simp [key, Path.join, h]

/-- An update reads the file again, and the files that take it into consideration if it appeared or
disappeared. -/
theorem Coherent.entry_rebuild (h : graph.Coherent) {key : Path} (hk : graph.key path = key)
    (other : Path) :
    (graph.rebuild tree path).entry other =
      if other = key then .ofSource tree key
      else if graph.files.contains key ≠ (tree.isFile key && key.isSource) ∧
        (graph.entry other).Considers key then .ofFile tree other
      else graph.entry other := by
  have hn : key.IsNormal := hk ▸ isNormal_key path
  have hupdated (other : Path) :
      (if (tree.isFile key && key.isSource) = true then graph.reread tree key
        else graph.dropFile key).entry other =
      if other = key then .ofSource tree key else graph.entry other := by
    rw [FileEntry.ofSource]
    split_ifs <;> simp_all [entry_reread hn, entry_dropFile]
  have hcoherent : (if (tree.isFile key && key.isSource) = true then graph.reread tree key
        else graph.dropFile key).Coherent := by
    split_ifs
    · exact h.reread tree key
    · exact h.dropFile key
  unfold ImportGraph.rebuild
  simp only [hk, bne_iff_ne]
  by_cases hchanged : graph.files.contains key = (tree.isFile key && key.isSource)
  · rw [if_neg (not_not.mpr hchanged), hupdated]
    simp [hchanged]
  · rw [if_pos hchanged, hcoherent.entry_refresh, hupdated]
    by_cases he : other = key <;> simp [he, hchanged]

end ImportGraph

end ApiImpact
