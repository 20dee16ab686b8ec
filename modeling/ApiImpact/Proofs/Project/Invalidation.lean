import ApiImpact.Proofs.Project.Built
import ApiImpact.Proofs.Project.Outside

/-!
# Giving up a file

A graph that gives a file up forgets what the file says and nothing else, as long as the file is there. When the
file is gone, the graph becomes the one that would be built anew. The next update for the file leads there in
either case, although the graph does not know any more whether it held the file.
-/

namespace ApiImpact.ImportGraph

variable {tree new : FileTree} {graph updated : ImportGraph} {settings : Settings} {root path changed other : Path}

@[simp]
theorem header_invalidate (path : Path) : (graph.invalidate tree path).header = graph.header := by
  unfold ImportGraph.invalidate
  simp only
  split_ifs <;> simp

theorem key_invalidate (other : Path) : (graph.invalidate tree path).key other = graph.key other := by
  have hroot : (graph.invalidate tree path).root = graph.root := congrArg Prod.fst (header_invalidate path)
  rw [key, key, hroot]

/-- The file that is given up leaves the graph. If it is gone, the files that take it into consideration are
read again. -/
theorem Coherent.entry_invalidate (h : graph.Coherent) (hk : graph.key path = changed) (other : Path) :
    (graph.invalidate tree path).entry other =
      if other = changed then .absent
      else if tree.isFile changed = false ∧ (graph.entry other).Considers changed then .ofFile tree other
      else graph.entry other := by
  unfold ImportGraph.invalidate
  simp only [hk]
  cases hfile : tree.isFile changed with
  | true => simp [entry_dropFile]
  | false =>
      rw [if_neg Bool.false_ne_true, (h.dropFile changed).entry_refresh, entry_dropFile]
      by_cases he : other = changed <;> simp [he]

/-! ## Following one file -/

/-- What is known of the files before and after the change of one source file that the walk heads for. -/
structure Changes (settings : Settings) (root : Path) (tree new : FileTree) (changed : Path) : Prop where
  written : tree.IsWritten
  written' : new.IsWritten
  flat : tree.IsFlat
  flat' : new.IsFlat
  undenied : tree.denied = ∅
  source : changed.isSource = true
  walked : isWalked settings root changed = true
  normal : changed.IsNormal
  agrees : tree.AgreesOff new [changed]

theorem Changes.undenied' (h : Changes settings root tree new changed) : new.denied = ∅ :=
  h.agrees.denied.trans h.undenied

theorem Changes.finds_iff_of_ne (h : Changes settings root tree new changed) (hne : other ≠ changed) :
    Finds new settings root other ↔ Finds tree settings root other := by
  rw [finds_iff h.written' h.flat' h.undenied', finds_iff h.written h.flat h.undenied,
    h.agrees.mem_iff (by simpa using hne)]

theorem Changes.finds_changed_iff (h : Changes settings root tree new changed) :
    Finds new settings root changed ↔ changed ∈ new.files := by
  rw [finds_iff h.written' h.flat' h.undenied', h.source, h.walked]
  simp

/-- A graph follows the change of a file when it reads that file again, and those that take it into consideration
unless the file neither appeared nor disappeared. -/
theorem Tracks.follow (h : graph.Tracks tree settings root) (hchange : Changes settings root tree new changed)
    (hcoherent : updated.Coherent) (hheader : updated.header = graph.header)
    (hchanged : updated.entry changed = .ofFile new changed) {p : Prop} [Decidable p]
    (hother : ∀ other, other ≠ changed → updated.entry other =
      if p ∧ (graph.entry other).Considers changed then .ofFile new other else graph.entry other)
    (hsame : ¬ p → (changed ∈ tree.files ↔ changed ∈ new.files)) : updated.Tracks new settings root := by
  refine ⟨hcoherent, hheader.trans h.header, fun other hf => ?_,
    fun other (hf : ¬ Finds new settings root other) => ?_⟩
  · by_cases hne : other = changed
    · rw [hne, hchanged]
    have hfinds := (hchange.finds_iff_of_ne hne).mp hf
    have hold := h.entry_of_finds other hfinds
    rw [hother other hne]
    split_ifs with hread
    · rfl
    rw [hold] at hread ⊢
    refine FileEntry.ofFile_eq_of_agreesOff hchange.agrees (hchange.written.isNormal hfinds.stored)
      (by simpa using hne) fun file hm => ?_
    obtain rfl := List.mem_singleton.mp hm
    exact or_iff_not_imp_right.mpr fun hconsiders => hsame fun hp => hread ⟨hp, not_not.mp hconsiders⟩
  · by_cases hne : other = changed
    · subst hne
      have hgone : new.isFile other = false :=
        (FileTree.isFile_eq_false_iff hchange.normal).mpr (mt hchange.finds_changed_iff.mpr hf)
      rw [hchanged, FileEntry.ofFile_of_isFile hgone]
    · have habsent := h.entry_of_not_finds other (mt (hchange.finds_iff_of_ne hne).mpr hf)
      rw [hother other hne, habsent, if_neg]
      simp [FileEntry.Considers, FileEntry.absent]

/-! ## The file is gone, or it is there -/

theorem Tracks.invalidate_of_gone (h : graph.Tracks tree settings root)
    (hchange : Changes settings root tree new (graph.key path)) (hgone : graph.key path ∉ new.files) :
    (graph.invalidate new path).Tracks new settings root := by
  have hfile : new.isFile (graph.key path) = false := (FileTree.isFile_eq_false_iff hchange.normal).mpr hgone
  have hentry (other : Path) := @Coherent.entry_invalidate new graph path (graph.key path) h.toCoherent rfl other
  refine h.follow hchange (h.toCoherent.invalidate new path) (header_invalidate path) ?_ (p := True)
    (fun other hne => ?_) (fun hp => absurd trivial hp)
  · rw [hentry, if_pos rfl, FileEntry.ofFile_of_isFile hfile]
  · simp [hentry, hne, hfile]

/-- After the file has been given up the update takes it for a new one, so it reads all those again that take the
file into consideration. -/
theorem Tracks.rebuild_invalidate_of_mem (h : graph.Tracks tree settings root)
    (hchange : Changes settings root tree new (graph.key path)) (hthere : graph.key path ∈ new.files) :
    ((graph.invalidate new path).rebuild new path).Tracks new settings root := by
  have hfile : new.isFile (graph.key path) = true := (FileTree.isFile_iff hchange.normal).mpr hthere
  have hleft := h.toCoherent.invalidate new path
  have hentry (other : Path) := @Coherent.entry_invalidate new graph path (graph.key path) h.toCoherent rfl other
  have hforgot : (graph.invalidate new path).files.contains (graph.key path) = false := by
    have hpresent := congrArg FileEntry.present (hentry (graph.key path))
    rwa [if_pos rfl] at hpresent
  have hrebuilt (other : Path) := @Coherent.entry_rebuild new _ path hleft (graph.key path) (key_invalidate path) other
  refine h.follow hchange (hleft.rebuild new path) ((header_rebuild path).trans (header_invalidate path)) ?_
    (p := True) (fun other hne => ?_) (fun hp => absurd trivial hp)
  · rw [hrebuilt, if_pos rfl, FileEntry.ofSource_of_isSource hchange.source]
  · rw [hrebuilt, if_neg hne, hforgot, hfile, hchange.source, hentry, if_neg hne]
    simp [hfile]

theorem Tracks.rebuild_invalidate (h : graph.Tracks tree settings root)
    (hchange : Changes settings root tree new (graph.key path)) :
    ((graph.invalidate new path).rebuild new path).Tracks new settings root := by
  by_cases hthere : graph.key path ∈ new.files
  · exact h.rebuild_invalidate_of_mem hchange hthere
  have htracks := h.invalidate_of_gone hchange hthere
  have hkey : (graph.invalidate new path).key path = graph.key path := key_invalidate path
  have hgone : new.isFile (graph.key path) = false := (FileTree.isFile_eq_false_iff hchange.normal).mpr hthere
  have hout : graph.key path ∉ (graph.invalidate new path).files := by
    rw [htracks.mem_files_iff hchange.written', hchange.finds_changed_iff]
    exact fun hm => hthere hm.1
  rwa [htracks.toCoherent.rebuild_eq_self (by rwa [hkey]) (by rwa [hkey])]

/-- As long as the file is there, the graph loses the file and its imports, and nothing else. -/
theorem Coherent.invalidate_of_isFile (h : graph.Coherent) (hthere : new.isFile (graph.key path) = true) :
    (∀ file, file ∈ (graph.invalidate new path).files ↔ file ∈ graph.files ∧ file ≠ graph.key path) ∧
    (∀ importer, (graph.invalidate new path).imports[importer]? =
      if importer = graph.key path then none else graph.imports[importer]?) ∧
    ∀ importer target, importer ∈ (graph.invalidate new path).importersOf target ↔
      importer ∈ graph.importersOf target ∧ importer ≠ graph.key path := by
  have hentry (file : Path) : (graph.invalidate new path).entry file =
      if file = graph.key path then .absent else graph.entry file := by
    rw [h.entry_invalidate (refl (graph.key path)), hthere]
    simp
  refine ⟨fun file => ?_, fun importer => ?_, fun importer target => ?_⟩
  · change ((graph.invalidate new path).entry file).present = true ↔ _
    rw [hentry]
    split_ifs with he
    · simp [he, FileEntry.absent]
    · simp [he, entry]
  · have himports := congrArg FileEntry.imports (hentry importer)
    rw [apply_ite FileEntry.imports] at himports
    exact himports
  · rw [(h.invalidate new path).mem_importersOf_iff, h.mem_importersOf_iff, mem_importsOf_iff, mem_importsOf_iff,
      hentry]
    split_ifs with he <;> simp [he]

/-! ## Exactness -/

/-- A source file of the walk is written, overwritten or removed after the graph was built; a walk without any time has
no files. Giving the file up leads to the graph that would be built anew if the file is gone, and otherwise to the same
graph without the file and its imports: others go on importing it. The update that follows leads to the graph that
would be built anew in all cases. -/
theorem invalidation_exact (hwritten : tree.IsWritten) (hwritten' : new.IsWritten) (hflat : tree.IsFlat)
    (hflat' : new.IsFlat) (hopen : tree.denied = ∅) (hbudget : settings.walkBudget ≠ some 0)
    (hbuild : build? tree settings root = some graph) (hsource : (graph.key path).isSource = true)
    (hwalked : isWalked settings root.normalize (graph.key path) = true)
    (hagree : tree.AgreesOff new [graph.key path]) :
    (graph.key path ∉ new.files → ∀ rebuilt, build? new settings root = some rebuilt →
      graph.invalidate new path = rebuilt) ∧
    (graph.key path ∈ new.files →
      (∀ file, file ∈ (graph.invalidate new path).files ↔ file ∈ graph.files ∧ file ≠ graph.key path) ∧
      (∀ importer, (graph.invalidate new path).imports[importer]? =
        if importer = graph.key path then none else graph.imports[importer]?) ∧
      ∀ importer target, importer ∈ (graph.invalidate new path).importersOf target ↔
        importer ∈ graph.importersOf target ∧ importer ≠ graph.key path) ∧
    ∀ rebuilt, build? new settings root = some rebuilt →
      (graph.invalidate new path).rebuild new path = rebuilt := by
  have hn : (graph.key path).IsNormal := isNormal_key path
  have hchange : Changes settings root.normalize tree new (graph.key path) :=
    ⟨hwritten, hwritten', hflat, hflat', hopen, hsource, hwalked, hn, hagree⟩
  have htracks := tracks_of_build hwritten hbudget hbuild
  refine ⟨fun hgone rebuilt hrebuilt => ?_, fun hthere => ?_, fun rebuilt hrebuilt => ?_⟩
  · exact (htracks.invalidate_of_gone hchange hgone).eq (tracks_of_build hwritten' hbudget hrebuilt)
  · exact htracks.toCoherent.invalidate_of_isFile ((FileTree.isFile_iff hn).mpr hthere)
  · exact (htracks.rebuild_invalidate hchange).eq (tracks_of_build hwritten' hbudget hrebuilt)

/-- A typed source is removed, and the script beside it takes its importer over; or it is overwritten, and the
importer stays. -/
theorem invalidation_exact_of_sibling :
    let tree := FileTree.ofTexts [("/p/a.js", "import './b';\n"), ("/p/b.ts", "import './a';\n"), ("/p/b.js", "")]
    let changed := Path.ofString "/p/b.ts"
    let removed := tree.remove changed
    let overwritten := tree.insert changed ""
    ∃ graph rebuilt, build? tree {} (.ofString "/p") = some graph ∧
      build? removed {} (.ofString "/p") = some rebuilt ∧ graph.invalidate removed changed = rebuilt ∧
      (graph.invalidate removed changed).rebuild removed changed = rebuilt ∧
      changed ∉ (graph.invalidate overwritten changed).files ∧
      .ofString "/p/a.js" ∈ (graph.invalidate overwritten changed).importersOf changed := by
  intro tree changed removed overwritten
  have hsome : (build? tree {} (.ofString "/p")).isSome = true := by decide +kernel
  let graph := (build? tree {} (.ofString "/p")).getD {}
  have hg : build? tree {} (.ofString "/p") = some graph := by
    rw [← Option.some_get hsome, Option.get_eq_getD]
  obtain ⟨rebuilt, hr⟩ := Option.isSome_iff_exists.mp
    (by decide +kernel : (build? removed {} (.ofString "/p")).isSome = true)
  have hkey : graph.key changed = changed := (key_of_absolute (by decide +kernel)).trans (by decide +kernel)
  have hnormal : changed.normalize = changed := by decide +kernel
  have hwritten : tree.IsWritten := FileTree.isWritten_ofTexts _
  have hflat : tree.IsFlat := by decide +kernel
  have hsource : (graph.key changed).isSource = true := by decide +kernel
  have hwalked : isWalked {} (Path.ofString "/p").normalize (graph.key changed) = true := by decide +kernel
  have hremoved : tree.AgreesOff removed [graph.key changed] := by
    simpa only [hkey, hnormal] using tree.agreesOff_remove changed
  have hoverwritten : tree.AgreesOff overwritten [graph.key changed] := by
    simpa only [hkey, hnormal] using tree.agreesOff_insert changed ""
  obtain ⟨hgone, -, hrebuild⟩ := invalidation_exact hwritten (hwritten.remove changed) hflat (by decide +kernel) rfl
    (by decide) hg hsource hwalked hremoved
  obtain ⟨-, hthere, -⟩ := invalidation_exact hwritten (hwritten.insert rfl "") hflat (by decide +kernel) rfl
    (by decide) hg hsource hwalked hoverwritten
  rw [hkey] at hgone hthere
  obtain ⟨hfiles, -, himporters⟩ := hthere (by decide +kernel)
  refine ⟨graph, rebuilt, hg, hr, hgone (by decide +kernel) rebuilt hr, hrebuild rebuilt hr, fun hm => ?_, ?_⟩
  · exact ((hfiles changed).mp hm).2 rfl
  · exact (himporters _ _).mpr ⟨by decide +kernel, by decide +kernel⟩

end ApiImpact.ImportGraph
