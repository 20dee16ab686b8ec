import Mathlib.Data.List.Infix
import ApiImpact.Proofs.Project.Rebuild

/-!
# A graph that follows the files

A graph that is brought up to date after every change to a file of the project is the graph that would be
built anew.
-/

namespace ApiImpact

/-- A change to a single file. -/
inductive FileEdit where
  | write (path : Path) (text : String)
  | remove (path : Path)

namespace FileEdit

/-- The file that changes. -/
def path : FileEdit → Path
  | write path _ => path
  | remove path => path

/-- The files after the change. -/
def apply (tree : FileTree) : FileEdit → FileTree
  | write path text => tree.insert path text
  | remove path => tree.remove path

/-- The change is to a source file that a walk from `root` heads for. -/
structure IsWalked (settings : Settings) (root : Path) (edit : FileEdit) : Prop where
  written : ∃ text, edit.path = .ofString text
  absolute : edit.path.absolute = true
  source : edit.path.normalize.isSource = true
  walked : ImportGraph.isWalked settings root.normalize edit.path.normalize = true

variable {tree : FileTree} {edit : FileEdit}

theorem agreesOff_apply (tree : FileTree) (edit : FileEdit) :
    tree.AgreesOff (edit.apply tree) [edit.path.normalize] := by
  cases edit with
  | write path text => exact tree.agreesOff_insert path text
  | remove path => exact tree.agreesOff_remove path

theorem isWritten_apply (h : tree.IsWritten) (he : ∃ text, edit.path = .ofString text) :
    (edit.apply tree).IsWritten := by
  obtain ⟨text, he⟩ := he
  cases edit with
  | write path written => exact h.insert he written
  | remove path => exact h.remove path

end FileEdit

namespace ImportGraph

variable {tree : FileTree} {graph : ImportGraph} {settings : Settings} {root : Path}

/-- What a walk finds in files that can all be read and of which none lies below another. -/
theorem finds_iff (hw : tree.IsWritten) (hflat : tree.IsFlat) (hopen : tree.denied = ∅) {file : Path} :
    Finds tree settings root file ↔
      file ∈ tree.files ∧ file.isSource = true ∧ isWalked settings root file = true :=
  ⟨fun h => ⟨h.stored, h.source, h.walked⟩, fun ⟨hs, hsource, hwalked⟩ =>
    ⟨hs, hsource, hflat.isDirectory_eq_false hw hs, hwalked,
      fun directory _ _ _ => FileTree.isDenied_eq_false hopen directory⟩⟩

/-- The files and the graph after a change that the graph is told of. -/
def follow (state : FileTree × ImportGraph) (edit : FileEdit) : FileTree × ImportGraph :=
  (edit.apply state.1, state.2.rebuild (edit.apply state.1) edit.path)

/-- The graph tracks files that are as a project has them. -/
structure Follows (settings : Settings) (root : Path) (state : FileTree × ImportGraph) : Prop where
  written : state.1.IsWritten
  undenied : state.1.denied = ∅
  flat : state.1.IsFlat
  tracks : state.2.Tracks state.1 settings root

theorem Follows.contains_files {state : FileTree × ImportGraph} (h : Follows settings root state)
    {file : Path} : state.2.files.contains file = true ↔ Finds state.1 settings root file := by
  change (state.2.entry file).present = true ↔ _
  by_cases hf : Finds state.1 settings root file
  · rw [h.tracks.entry_of_finds file hf, FileEntry.present_ofFile]
    have hfile : state.1.isFile file = true :=
      (FileTree.isFile_iff (h.written.isNormal hf.stored)).mpr hf.stored
    simp [hf, hfile, FileTree.isDenied_eq_false h.undenied]
  · rw [h.tracks.entry_of_not_finds file hf]
    simp [hf, FileEntry.absent]

section Step

variable {state : FileTree × ImportGraph} {edit : FileEdit} {file : Path}

theorem Follows.contains_edited (h : Follows settings root.normalize state)
    (he : edit.IsWalked settings root) :
    state.2.files.contains edit.path.normalize = true ↔ edit.path.normalize ∈ state.1.files := by
  rw [h.contains_files, finds_iff h.written h.flat h.undenied]
  simp [he.source, he.walked]

/-- The entry of a file that is not the changed one: it is read again, or it is as before. -/
theorem Follows.entry_of_ne (h : Follows settings root.normalize state)
    (he : edit.IsWalked settings root) (hf : Finds state.1 settings root.normalize file)
    (hne : file ≠ edit.path.normalize) :
    (follow state edit).2.entry file = .ofFile (edit.apply state.1) file := by
  have hold := h.tracks.entry_of_finds file hf
  rw [follow, h.tracks.entry_rebuild (key_of_absolute he.absolute), if_neg hne]
  split_ifs with hc
  · rfl
  rw [hold] at hc ⊢
  refine FileEntry.ofFile_eq_of_agreesOff (FileEdit.agreesOff_apply state.1 edit)
    (h.written.isNormal hf.stored) (by simpa using hne) fun changed hm => ?_
  obtain rfl := List.mem_singleton.mp hm
  -- The file was not read again although it considers the changed one, so that one was there before
  -- and after the change, or neither.
  refine or_iff_not_imp_right.mpr fun hconsiders => ?_
  have hsame := not_not.mp (mt (fun hd => ⟨hd, not_not.mp hconsiders⟩) hc)
  rw [← h.contains_edited he, hsame, he.source, Bool.and_true, 
    FileTree.isFile_iff (Path.isNormal_normalize _)]

theorem Follows.step (h : Follows settings root.normalize state) (he : edit.IsWalked settings root)
    (hflat : (edit.apply state.1).IsFlat) : Follows settings root.normalize (follow state edit) := by
  have hagree := FileEdit.agreesOff_apply state.1 edit
  have hw := FileEdit.isWritten_apply h.written he.written
  have hopen : (edit.apply state.1).denied = ∅ := hagree.denied.trans h.undenied
  have hkey : state.2.key edit.path = edit.path.normalize := key_of_absolute he.absolute
  have hfinds {file : Path} (hne : file ≠ edit.path.normalize) :
      Finds (edit.apply state.1) settings root.normalize file ↔
        Finds state.1 settings root.normalize file := by
    rw [finds_iff hw hflat hopen, finds_iff h.written h.flat h.undenied,
      hagree.mem_iff (by simpa using hne)]
  have hedited : (follow state edit).2.entry edit.path.normalize =
      .ofFile (edit.apply state.1) edit.path.normalize := by
    rw [follow, h.tracks.entry_rebuild hkey, if_pos rfl, FileEntry.ofSource_of_isSource he.source]
  refine ⟨hw, hopen, hflat, h.tracks.toCoherent.rebuild _ _, ?_, fun file hf => ?_,
    fun file (hf : ¬ Finds (edit.apply state.1) settings root.normalize file) => ?_⟩
  · exact (header_rebuild _).trans h.tracks.header
  · by_cases hne : file = edit.path.normalize
    · rw [hne]
      exact hedited
    · exact h.entry_of_ne he ((hfinds hne).mp hf) hne
  · by_cases hne : file = edit.path.normalize
    · subst hne
      rw [finds_iff hw hflat hopen, he.source, he.walked] at hf
      rw [hedited, FileEntry.ofFile_of_isFile]
      rw [FileTree.isFile_eq_false_iff (Path.isNormal_normalize _)]
      simpa using hf
    · have habsent := h.tracks.entry_of_not_finds file (mt (hfinds hne).mpr hf)
      rw [follow, h.tracks.entry_rebuild hkey, if_neg hne, habsent, if_neg]
      simp [FileEntry.Considers, FileEntry.absent]

end Step

/-- The graph follows the files through every run of changes. -/
theorem Follows.run {state : FileTree × ImportGraph} (h : Follows settings root.normalize state)
    {edits : List FileEdit} (he : ∀ edit ∈ edits, edit.IsWalked settings root)
    (hflat : ∀ done, done <+: edits → (done.foldl FileEdit.apply state.1).IsFlat) :
    Follows settings root.normalize (edits.foldl follow state) := by
  induction edits generalizing state with
  | nil => exact h
  | cons edit rest ih =>
      have hstep := h.step (he edit (by simp)) (hflat [edit] (by simp))
      refine ih hstep (fun next hm => he next (by simp [hm])) fun done hd => ?_
      exact hflat (edit :: done) (by simpa using hd)

theorem fst_foldl_follow (edits : List FileEdit) (state : FileTree × ImportGraph) :
    (edits.foldl follow state).1 = edits.foldl FileEdit.apply state.1 := by
  induction edits generalizing state with
  | nil => rfl
  | cons edit rest ih => exact ih _

/-- A graph that is brought up to date after each of a run of changes is, at any time, the graph that
would be built anew. -/
theorem foldl_follow_eq_build {edits : List FileEdit} (hbudget : settings.walkBudget = none)
    (hwritten : tree.IsWritten) (hopen : tree.denied = ∅)
    (hbuild : build? tree settings root = some graph)
    (hedits : ∀ edit ∈ edits, edit.IsWalked settings root)
    (hflat : ∀ done, done <+: edits → (done.foldl FileEdit.apply tree).IsFlat) :
    ∀ done, done <+: edits → ∀ rebuilt,
      build? (done.foldl FileEdit.apply tree) settings root = some rebuilt →
        (done.foldl follow (tree, graph)).2 = rebuilt := by
  intro done hd rebuilt hrebuilt
  have hb : settings.walkBudget ≠ some 0 := by simp [hbudget]
  have hstart : Follows settings root.normalize (tree, graph) :=
    ⟨hwritten, hopen, hflat [] (by simp), tracks_of_build hwritten hb hbuild⟩
  have h := hstart.run (fun edit hm => hedits edit (hd.subset hm)) fun first hf =>
    hflat first (hf.trans hd)
  refine h.tracks.eq ?_
  rw [fst_foldl_follow]
  exact tracks_of_build (by simpa [fst_foldl_follow] using h.written) hb hrebuilt

/-- A typed source takes the imports of a script over that is then removed. -/
theorem foldl_follow_eq_build_typed :
    let tree := FileTree.ofTexts [("/p/a.js", "import './b';\n"), ("/p/b.js", "")]
    let edits := [FileEdit.write (.ofString "/p/b.ts") "", .remove (.ofString "/p/b.js")]
    ∃ graph rebuilt, build? tree {} (.ofString "/p") = some graph ∧
      build? (edits.foldl FileEdit.apply tree) {} (.ofString "/p") = some rebuilt ∧
      (edits.foldl follow (tree, graph)).2 = rebuilt := by
  intro tree edits
  obtain ⟨graph, hg⟩ := Option.isSome_iff_exists.mp
    (by decide +kernel : (build? tree {} (.ofString "/p")).isSome = true)
  obtain ⟨rebuilt, hr⟩ := Option.isSome_iff_exists.mp
    (by decide +kernel : (build? (edits.foldl FileEdit.apply tree) {} (.ofString "/p")).isSome = true)
  refine ⟨graph, rebuilt, hg, hr, foldl_follow_eq_build rfl (FileTree.isWritten_ofTexts _) rfl hg ?_ ?_
    edits List.prefix_rfl rebuilt hr⟩
  · intro edit he
    simp only [edits, List.mem_cons, List.not_mem_nil, or_false] at he
    rcases he with rfl | rfl
    · exact ⟨⟨"/p/b.ts", rfl⟩, by decide +kernel, by decide +kernel, by decide +kernel⟩
    · exact ⟨⟨"/p/b.js", rfl⟩, by decide +kernel, by decide +kernel, by decide +kernel⟩
  · intro done hd
    have hall : ∀ done ∈ edits.inits, (done.foldl FileEdit.apply tree).IsFlat := by decide +kernel
    exact hall done ((List.mem_inits done edits).mpr hd)

end ImportGraph

end ApiImpact
