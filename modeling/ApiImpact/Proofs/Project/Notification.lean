import ApiImpact.Proofs.Project.Rebuild

/-!
# Two changes at once

When two files have changed before the graph is told of either, the order in which it is told matters in
one case: the first update reads the second file again and drops it, so the second update finds nothing
that has changed, and the importers of the second file are not read again.
-/

namespace ApiImpact.ImportGraph

variable {tree new : FileTree} {graph : ImportGraph} {settings : Settings} {root : Path}
  {first second file : Path}

/-- The file has appeared or disappeared since the graph was drawn. -/
def Flips (new : FileTree) (graph : ImportGraph) (file : Path) : Prop :=
  graph.files.contains file ≠ new.isFile file

instance : Decidable (Flips new graph file) := inferInstanceAs (Decidable (_ ≠ _))

/-- The update for `first` hides from the one for `second` that `second` is gone, and some importer of
`second` is read again by neither. -/
structure Hides (new : FileTree) (graph : ImportGraph) (first second : Path) : Prop where
  flips : Flips new graph first
  gone : new.isFile second = false
  considers : (graph.entry second).Considers first
  importer : ∃ importer, importer ≠ first ∧ second ∈ graph.importsOf importer ∧
    ¬ (graph.entry importer).Considers first

theorem Coherent.contains_of_considers (h : graph.Coherent) (hc : (graph.entry file).Considers first) :
    graph.files.contains file = true := by
  refine (h.sound file).present (Or.inr ?_)
  cases hg : (graph.entry file).considered with
  | none => simp [FileEntry.Considers, hg] at hc
  | some paths => rfl

/-! ## Two updates -/

/-- What two updates read again. -/
def Rereads (new : FileTree) (graph : ImportGraph) (first second file : Path) : Prop :=
  file = first ∨ file = second ∨
    Flips new graph first ∧ (graph.entry file).Considers first ∨
    Flips new graph second ∧ ¬ (Flips new graph first ∧ (graph.entry second).Considers first) ∧
      (graph.entry file).Considers second

instance : Decidable (Rereads new graph first second file) :=
  inferInstanceAs (Decidable (_ ∨ _ ∨ _ ∧ _ ∨ _ ∧ ¬ (_ ∧ _) ∧ _))

theorem Coherent.entry_rebuild_of_isSource (h : graph.Coherent) (new : FileTree) {path : Path}
    (hk : graph.key path = first) (hs : first.isSource = true) (file : Path) :
    (graph.rebuild new path).entry file =
      if file = first ∨ Flips new graph first ∧ (graph.entry file).Considers first then
        .ofFile new file else graph.entry file := by
  rw [h.entry_rebuild hk, FileEntry.ofSource_of_isSource hs, hs, Bool.and_true]
  by_cases he : file = first <;> simp [he, Flips]

theorem Drawn.isDenied (h : graph.Drawn tree) (hd : new.denied = tree.denied)
    (hc : (graph.entry file).Considers first) : new.isDenied file = false := by
  have he := h.entry_eq file (ne_absent_of_considers hc)
  cases hr : tree.read file with
  | error cause => simp [he, FileEntry.ofFile_of_error hr, FileEntry.absent, FileEntry.Considers] at hc
  | ok text =>
      rw [FileTree.isDenied, hd]
      exact (FileTree.read_eq_ok_iff.mp hr).1

theorem Drawn.entry_rebuild_rebuild (h : graph.Drawn tree) (hd : new.denied = tree.denied)
    {path other : Path} (hk : graph.key path = first) (hk' : graph.key other = second)
    (hs : first.isSource = true) (hs' : second.isSource = true) (hne : first ≠ second) (file : Path) :
    ((graph.rebuild new path).rebuild new other).entry file =
      if Rereads new graph first second file then .ofFile new file else graph.entry file := by
  have hentry (file : Path) := h.toCoherent.entry_rebuild_of_isSource new hk hs file
  have hkey : (graph.rebuild new path).key other = second := by
    have hroot : (graph.rebuild new path).root = graph.root := congrArg Prod.fst (header_rebuild path)
    rw [key, hroot]
    exact hk'
  have hflips : Flips new (graph.rebuild new path) second ↔
      Flips new graph second ∧ ¬ (Flips new graph first ∧ (graph.entry second).Considers first) := by
    have hpresent : (graph.rebuild new path).files.contains second =
      ((graph.rebuild new path).entry second).present := rfl
    rw [Flips, hpresent, hentry]
    by_cases hc : Flips new graph first ∧ (graph.entry second).Considers first
    · simp [hc, FileEntry.present_ofFile, h.isDenied hd hc.2]
    · rw [if_neg fun h => hc (h.resolve_left hne.symm)]
      exact (and_iff_left hc).symm
  rw [(h.toCoherent.rebuild new path).entry_rebuild_of_isSource new hkey hs', hentry]
  by_cases hfirst : file = first ∨ Flips new graph first ∧ (graph.entry file).Considers first
  · have hreads : Rereads new graph first second file := hfirst.elim Or.inl (Or.inr ∘ Or.inr ∘ Or.inl)
    rw [if_pos hfirst, if_pos hreads, ite_self]
  · have hreads : Rereads new graph first second file ↔ file = second ∨
        Flips new (graph.rebuild new path) second ∧ (graph.entry file).Considers second := by
      obtain ⟨hne', hunchanged⟩ := not_or.mp hfirst
      simp [Rereads, hflips, hne', hunchanged, and_assoc]
    simp only [if_neg hfirst, hreads]

/-! ## What the order changes -/

/-- A file keeps its entry when none of its imports is gone. -/
theorem Drawn.ofFile_eq_entry (h : graph.Drawn tree) (hagree : tree.AgreesOff new [first, second])
    (hfile : file ∉ [first, second]) (hnotfirst : ¬ (graph.entry file).Considers first)
    (hsecond : (graph.entry file).Considers second) (hgone : second ∉ new.files)
    (himport : second ∉ graph.importsOf file) : FileEntry.ofFile new file = graph.entry file := by
  have he := h.entry_eq file (ne_absent_of_considers hsecond)
  have hn : file.IsNormal := (h.sound file).normal (ne_absent_of_considers hsecond)
  rw [mem_importsOf_iff] at himport
  rw [he] at hnotfirst himport ⊢
  refine (FileEntry.ofFile_congr (hagree.read_eq hn hfile) fun reference hr => ?_).symm
  refine (Resolution.resolve?_eq_of_gone (fun path hp hne => ?_) hgone ?_).symm
  · refine hagree.mem_iff ?_
    have hfirst : path ≠ first := fun he =>
      hnotfirst (FileEntry.considers_ofFile_iff.mpr ⟨reference, hr, he ▸ hp⟩)
    simp [hfirst, hne]
  · intro hres
    refine himport (FileEntry.mem_targets_ofFile_iff.mpr ⟨?_, reference, hr, hres⟩)
    rintro rfl
    simp at hfile

/-- Where only the other order reads a file again, the first update hides the second. -/
theorem Drawn.hides_of_not_rereads (h : graph.Drawn tree) (hagree : tree.AgreesOff new [first, second])
    (hn : second.IsNormal) (hr : Rereads new graph second first file)
    (hr' : ¬ Rereads new graph first second file)
    (hne : FileEntry.ofFile new file ≠ graph.entry file) : Hides new graph first second := by
  simp only [Rereads, not_or] at hr'
  obtain ⟨hfirst, hsecond, hnotfirst, hhidden⟩ := hr'
  -- What the other order reads the file again for must be the change of `second`.
  have hflips : Flips new graph second ∧ (graph.entry file).Considers second := by
    rcases hr with he | he | hb | ⟨hflips, -, hc⟩
    · exact absurd he hsecond
    · exact absurd he hfirst
    · exact hb
    · exact absurd ⟨hflips, hc⟩ hnotfirst
  have hhides : Flips new graph first ∧ (graph.entry second).Considers first := by
    by_contra hc
    exact hhidden ⟨hflips.1, hc, hflips.2⟩
  have hgone : new.isFile second = false := by
    have := hflips.1
    rw [Flips, h.contains_of_considers hhides.2] at this
    simpa using this.symm
  have hnot : ¬ (graph.entry file).Considers first := fun hc => hnotfirst ⟨hhides.1, hc⟩
  refine ⟨hhides.1, hgone, hhides.2, file, hfirst, ?_, hnot⟩
  by_contra himport
  exact hne (h.ofFile_eq_entry hagree (by simp [hfirst, hsecond]) hnot hflips.2
    ((FileTree.isFile_eq_false_iff hn).mp hgone) himport)

theorem Drawn.rebuild_comm (h : graph.Drawn tree) {path other : Path}
    (hne : graph.key path ≠ graph.key other) (hs : (graph.key path).isSource = true)
    (hs' : (graph.key other).isSource = true)
    (hagree : tree.AgreesOff new [graph.key path, graph.key other])
    (hh : ¬ Hides new graph (graph.key path) (graph.key other))
    (hh' : ¬ Hides new graph (graph.key other) (graph.key path)) :
    (graph.rebuild new path).rebuild new other = (graph.rebuild new other).rebuild new path := by
  have hagree' : tree.AgreesOff new [graph.key other, graph.key path] :=
    ⟨hagree.denied, fun file hf => hagree.files file (by simpa [and_comm] using hf)⟩
  refine ((h.toCoherent.rebuild new path).rebuild new other).ext
    ((h.toCoherent.rebuild new other).rebuild new path) (by simp) fun file => ?_
  rw [h.entry_rebuild_rebuild hagree.denied (refl (graph.key path)) (refl (graph.key other)) hs hs' hne,
    h.entry_rebuild_rebuild hagree.denied (refl (graph.key other)) (refl (graph.key path)) hs' hs
      hne.symm]
  by_cases he : FileEntry.ofFile new file = graph.entry file
  · simp [he]
  -- A file whose entry does change is read again in both orders.
  refine if_congr ⟨fun hr => ?_, fun hr => ?_⟩ rfl rfl
  · by_contra hr'
    exact hh' (h.hides_of_not_rereads hagree' (isNormal_key path) hr hr' he)
  · by_contra hr'
    exact hh (h.hides_of_not_rereads hagree (isNormal_key other) hr hr' he)

/-- When the first update hides the second, an import of the missing file stays in one order only. -/
theorem Drawn.importsOf_ne_of_hides (h : graph.Drawn tree) (hd : new.denied = tree.denied)
    {path other : Path} (hk : graph.key path = first) (hk' : graph.key other = second)
    (hs : first.isSource = true) (hs' : second.isSource = true) (hne : first ≠ second)
    (hh : Hides new graph first second) :
    ∃ importer, ((graph.rebuild new path).rebuild new other).importsOf importer ≠
      ((graph.rebuild new other).rebuild new path).importsOf importer := by
  obtain ⟨hflips, hgone, hc, importer, hfirst, himport, hnot⟩ := hh
  have hmem := mem_importsOf_iff.mp himport
  have hsecond : importer ≠ second := by
    rintro rfl
    exact (h.sound importer).self_notMem hmem
  have hflips' : Flips new graph second := by
    rw [Flips, h.contains_of_considers hc, hgone]
    decide
  have hkeeps : ¬ Rereads new graph first second importer := by
    simp [Rereads, hfirst, hsecond, hnot, hflips, hc]
  have hreads : Rereads new graph second first importer :=
    Or.inr (Or.inr (Or.inl ⟨hflips', (h.sound importer).considers second hmem⟩))
  refine ⟨importer, fun he => ?_⟩
  have hm : second ∈ ((graph.rebuild new path).rebuild new other).importsOf importer := by
    rwa [mem_importsOf_iff, h.entry_rebuild_rebuild hd hk hk' hs hs' hne, if_neg hkeeps]
  rw [he, mem_importsOf_iff, h.entry_rebuild_rebuild hd hk' hk hs' hs hne.symm, if_pos hreads,
    FileEntry.mem_targets_ofFile_iff] at hm
  obtain ⟨-, reference, -, hres⟩ := hm
  have hn : second.IsNormal := hk' ▸ isNormal_key other
  exact (FileTree.isFile_eq_false_iff hn).mp hgone (Resolution.mem_files_of_resolve hres)

/-- Two updates can be made in either order, except when one of them hides the other: then the orders
leave different imports. -/
theorem rebuild_comm_unless_hides (hw : tree.IsWritten)
    (hbuild : build? tree settings root = some graph) {path other : Path}
    (hne : graph.key path ≠ graph.key other) (hs : (graph.key path).isSource = true)
    (hs' : (graph.key other).isSource = true)
    (hagree : tree.AgreesOff new [graph.key path, graph.key other]) :
    (¬ Hides new graph (graph.key path) (graph.key other) ∧
        ¬ Hides new graph (graph.key other) (graph.key path) →
      (graph.rebuild new path).rebuild new other = (graph.rebuild new other).rebuild new path) ∧
    (Hides new graph (graph.key path) (graph.key other) ∨
        Hides new graph (graph.key other) (graph.key path) →
      ∃ importer, ((graph.rebuild new path).rebuild new other).importsOf importer ≠
        ((graph.rebuild new other).rebuild new path).importsOf importer) := by
  have h := drawn_of_build hw hbuild
  refine ⟨fun ⟨hh, hh'⟩ => h.rebuild_comm hne hs hs' hagree hh hh', ?_⟩
  rintro (hh | hh)
  · exact h.importsOf_ne_of_hides hagree.denied rfl rfl hs hs' hne hh
  · obtain ⟨importer, hi⟩ := h.importsOf_ne_of_hides hagree.denied rfl rfl hs' hs hne.symm hh
    exact ⟨importer, hi.symm⟩

/-- A file appears that a removed one asked for: whoever imports the removed one shows the order. -/
theorem rebuild_order_matters :
    let tree := FileTree.ofTexts [("/p/g.ts", "import './f';\n"), ("/p/h.ts", "import './g';\n")]
    let new := (tree.insert (.ofString "/p/f.ts") "").remove (.ofString "/p/g.ts")
    ∃ graph, build? tree {} (.ofString "/p") = some graph ∧ ∃ importer,
      ((graph.rebuild new (.ofString "/p/f.ts")).rebuild new (.ofString "/p/g.ts")).importsOf importer ≠
        ((graph.rebuild new (.ofString "/p/g.ts")).rebuild new (.ofString "/p/f.ts")).importsOf
          importer := by
  intro tree new
  have hsome : (build? tree {} (.ofString "/p")).isSome = true := by decide +kernel
  let graph := (build? tree {} (.ofString "/p")).getD {}
  have hg : build? tree {} (.ofString "/p") = some graph := by
    rw [← Option.some_get hsome, Option.get_eq_getD]
  have hkey : graph.key (.ofString "/p/f.ts") = (Path.ofString "/p/f.ts").normalize :=
    key_of_absolute (by decide +kernel)
  have hkey' : graph.key (.ofString "/p/g.ts") = (Path.ofString "/p/g.ts").normalize :=
    key_of_absolute (by decide +kernel)
  have hagree : tree.AgreesOff new [(Path.ofString "/p/f.ts").normalize,
      (Path.ofString "/p/g.ts").normalize] :=
    (tree.agreesOff_insert _ _).trans (FileTree.agreesOff_remove _ _)
  have hhides : Hides new graph (Path.ofString "/p/f.ts").normalize
      (Path.ofString "/p/g.ts").normalize :=
    ⟨by decide +kernel, by decide +kernel, by decide +kernel, .ofString "/p/h.ts", by decide +kernel⟩
  rw [← hkey, ← hkey'] at hagree hhides
  refine ⟨graph, hg, (rebuild_comm_unless_hides (FileTree.isWritten_ofTexts _) hg ?_ ?_ ?_ hagree).2
    (Or.inl hhides)⟩
  all_goals
    simp only [hkey, hkey']
    decide +kernel

end ApiImpact.ImportGraph
