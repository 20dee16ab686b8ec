import ApiImpact.Project.Update
import ApiImpact.Proofs.Project.Tree

/-!
# What a specifier stands for

A specifier stands for the first of its candidates that exists. All candidates are in normal form, so a
file takes part in a resolution only if it is a candidate itself.
-/

namespace ApiImpact.Resolution

variable {tree : FileTree} {importer target : Path} {specifier : String}

theorem isNormal_of_mem_candidatesOf {base path : Path} (hb : base.IsNormal)
    (h : path ∈ candidatesOf base) : path.IsNormal := by
  simp only [candidatesOf, List.mem_append, List.mem_map] at h
  rcases h with ((h | ⟨extension, -, rfl⟩) | ⟨extension, -, rfl⟩) | ⟨extension, -, rfl⟩
  · split at h
    · rwa [List.mem_singleton.mp h]
    · cases h
  · exact hb.withExtension extension
  · exact hb.appendText _
  · exact hb.join_name _

theorem isNormal_of_mem_candidates (h : target ∈ candidates importer specifier) : target.IsNormal := by
  unfold candidates at h
  split at h
  · exact isNormal_of_mem_candidatesOf (Path.isNormal_normalize _) h
  · cases h

theorem isFile_candidate (h : target ∈ candidates importer specifier) :
    tree.isFile target ↔ target ∈ tree.files := by
  rw [FileTree.isFile_iff (isNormal_of_mem_candidates h)]

/-- A specifier stands for the first of its candidates that exists. -/
theorem resolve?_eq_some_iff :
    resolve? tree importer specifier = some target ↔ target ∈ tree.files ∧
      ∃ before after, candidates importer specifier = before ++ target :: after ∧
        ∀ path ∈ before, path ∉ tree.files := by
  rw [resolve?, Option.map_eq_some_iff]
  constructor
  · rintro ⟨found, hf, rfl⟩
    obtain ⟨hfile, before, after, hc, hbefore⟩ := List.find?_eq_some_iff_append.mp hf
    have hmem : found ∈ candidates importer specifier := by simp [hc]
    rw [(isNormal_of_mem_candidates hmem).eq]
    refine ⟨(isFile_candidate hmem).mp hfile, before, after, hc, fun path hp hs => ?_⟩
    have hfile : tree.isFile path = true := (isFile_candidate (by rw [hc]; simp [hp])).mpr hs
    simpa [hfile] using hbefore path hp
  · rintro ⟨hs, before, after, hc, hbefore⟩
    have hmem : target ∈ candidates importer specifier := by simp [hc]
    refine ⟨target, List.find?_eq_some_iff_append.mpr
      ⟨(isFile_candidate hmem).mpr hs, before, after, hc, fun path hp => ?_⟩,
      (isNormal_of_mem_candidates hmem).eq⟩
    have := mt (isFile_candidate (by rw [hc]; simp [hp])).mp (hbefore path hp)
    simpa using this

/-- Candidates are in normal form, so the file that is found is the one that is meant. -/
theorem resolve?_eq_find? (tree : FileTree) (importer : Path) (specifier : String) :
    resolve? tree importer specifier = (candidates importer specifier).find? tree.isFile := by
  rw [resolve?]
  cases hf : (candidates importer specifier).find? tree.isFile with
  | none => rfl
  | some found => exact congrArg some (isNormal_of_mem_candidates (List.mem_of_find?_eq_some hf)).eq

theorem mem_candidates_of_resolve (h : resolve? tree importer specifier = some target) :
    target ∈ candidates importer specifier := by
  obtain ⟨-, before, after, hc, -⟩ := resolve?_eq_some_iff.mp h
  simp [hc]

theorem mem_files_of_resolve (h : resolve? tree importer specifier = some target) :
    target ∈ tree.files :=
  (resolve?_eq_some_iff.mp h).1

theorem resolve?_eq_none_iff :
    resolve? tree importer specifier = none ↔
      ∀ path ∈ candidates importer specifier, path ∉ tree.files := by
  rw [resolve?, Option.map_eq_none_iff, List.find?_eq_none]
  exact forall₂_congr fun path hp => by rw [isFile_candidate hp]

/-- Only the candidates of a specifier matter for what it stands for. -/
theorem resolve?_congr {other : FileTree}
    (h : ∀ path ∈ candidates importer specifier, path ∈ tree.files ↔ path ∈ other.files) :
    resolve? tree importer specifier = resolve? other importer specifier := by
  cases hr : resolve? tree importer specifier with
  | none =>
      rw [resolve?_eq_none_iff] at hr
      exact (resolve?_eq_none_iff.mpr fun path hp => mt (h path hp).mpr (hr path hp)).symm
  | some target =>
      obtain ⟨hs, before, after, hc, hb⟩ := resolve?_eq_some_iff.mp hr
      refine (resolve?_eq_some_iff.mpr ⟨(h target (by simp [hc])).mp hs, before, after, hc, ?_⟩).symm
      exact fun path hp => mt (h path (by simp [hc, hp])).mpr (hb path hp)

/-- A file that disappears matters only to the specifiers that stood for it. -/
theorem resolve?_eq_of_gone {other : FileTree} {gone : Path}
    (h : ∀ path ∈ candidates importer specifier, path ≠ gone → (path ∈ tree.files ↔ path ∈ other.files))
    (hg : gone ∉ other.files) (hr : resolve? tree importer specifier ≠ some gone) :
    resolve? other importer specifier = resolve? tree importer specifier := by
  have hsub : ∀ path ∈ candidates importer specifier, path ∈ other.files → path ∈ tree.files :=
    fun path hp ho => (h path hp fun he => hg (he ▸ ho)).mpr ho
  cases hr' : resolve? tree importer specifier with
  | none =>
      rw [resolve?_eq_none_iff] at hr' ⊢
      exact fun path hp => mt (hsub path hp) (hr' path hp)
  | some target =>
      obtain ⟨hs, before, after, hc, hb⟩ := resolve?_eq_some_iff.mp hr'
      have hne : target ≠ gone := fun he => hr (he ▸ hr')
      refine resolve?_eq_some_iff.mpr ⟨(h target (by simp [hc]) hne).mp hs, before, after, hc, ?_⟩
      exact fun path hp => mt (hsub path (by simp [hc, hp])) (hb path hp)

/-- A specifier stands for the same file when that file changes and stays. -/
theorem resolve?_of_agreesOff {other : FileTree} (hagree : tree.AgreesOff other [target])
    (h : resolve? tree importer specifier = some target) (ht : target ∈ other.files) :
    resolve? other importer specifier = some target := by
  rw [← h]
  refine (resolve?_congr fun path _ => ?_).symm
  by_cases he : path = target
  · rw [he]
    exact iff_of_true (mem_files_of_resolve h) ht
  · exact hagree.mem_iff (by simpa using he)

end ApiImpact.Resolution

/-!
# What an import graph holds about one file

The graph of a project is made of entries, one for every file: what the file imports and which files it
takes into consideration. Every update of a graph is described by what it does to the entries.
-/

namespace ApiImpact

/-- What a graph holds about one file. -/
@[ext]
structure FileEntry where
  imports : Option (Std.ExtTreeMap Path (List ModuleReference))
  considered : Option (Std.ExtTreeSet Path)
  present : Bool

namespace FileEntry

/-- The entry of a file that is not in the graph. -/
def absent : FileEntry := ⟨none, none, false⟩

/-- The imported files with the references to them. -/
def targets (entry : FileEntry) : Std.ExtTreeMap Path (List ModuleReference) :=
  entry.imports.getD ∅

/-- The references to `target`. -/
def references (entry : FileEntry) (target : Path) : List ModuleReference :=
  (entry.targets[target]?).getD []

/-- The file takes `path` into consideration. -/
def Considers (entry : FileEntry) (path : Path) : Prop := path ∈ entry.considered.getD ∅

instance (entry : FileEntry) (path : Path) : Decidable (entry.Considers path) :=
  inferInstanceAs (Decidable (path ∈ _))

/-- The entry with one more reference to `target`. -/
def link (entry : FileEntry) (target : Path) (reference : ModuleReference) : FileEntry :=
  { entry with imports := some (entry.targets.insert target (entry.references target ++ [reference])) }

/-- The entry that takes all of `paths` into consideration. -/
def consider (entry : FileEntry) (paths : List Path) : FileEntry :=
  { entry with considered := some ((entry.considered.getD ∅).insertMany paths) }

/-- The entry of `importer` with one relative reference taken in. -/
def addReference (tree : FileTree) (importer : Path) (entry : FileEntry) (reference : ModuleReference) :
    FileEntry :=
  let entry := entry.consider (Resolution.candidates importer reference.specifier)
  match Resolution.resolve? tree importer reference.specifier with
  | some target => if target = importer then entry else entry.link target reference
  | none => entry

/-- The entry with all relative references of `text` taken in. -/
def addText (tree : FileTree) (importer : Path) (entry : FileEntry) (text : String) : FileEntry :=
  ((ModuleReference.extract text).filter (·.isRelative)).foldl (addReference tree importer)
    { entry with present := true }

/-- The entry of the file at `path`, as it is read now. -/
def ofFile (tree : FileTree) (path : Path) : FileEntry :=
  match tree.read path with
  | .error _ => absent
  | .ok text => absent.addText tree path text

end FileEntry

namespace ImportGraph

variable {tree : FileTree} {graph : ImportGraph}

/-- What the graph holds about the file at `path`. -/
def entry (graph : ImportGraph) (path : Path) : FileEntry where
  imports := graph.imports[path]?
  considered := graph.considered[path]?
  present := graph.files.contains path

theorem mem_importsOf_iff {importer target : Path} :
    target ∈ graph.importsOf importer ↔ target ∈ (graph.entry importer).targets :=
  Std.ExtTreeMap.mem_keys

theorem references_eq (importer target : Path) :
    graph.references importer target = (graph.entry importer).references target := rfl

@[simp]
theorem entry_empty (root : Path) (truncated : Bool) (path : Path) :
    ({ root, truncated } : ImportGraph).entry path = .absent := by
  simp [entry, FileEntry.absent]

/-! ## Adding files -/

theorem entry_link (importer target : Path) (reference : ModuleReference) (path : Path) :
    (graph.link importer target reference).entry path =
      if path = importer then (graph.entry path).link target reference else graph.entry path := by
  split_ifs with h
  · subst h
    simp [entry, link, FileEntry.link, FileEntry.targets, FileEntry.references]
  · simp [entry, link, Std.ExtTreeMap.getElem?_insert, Ne.symm h]

theorem entry_consider (importer : Path) (paths : List Path) (path : Path) :
    (graph.consider importer paths).entry path =
      if path = importer then (graph.entry path).consider paths else graph.entry path := by
  split_ifs with h
  · subst h
    simp [entry, consider, FileEntry.consider]
  · simp [entry, consider, Std.ExtTreeMap.getElem?_insert, Ne.symm h]

theorem entry_addReference (importer : Path) (reference : ModuleReference) (path : Path) :
    (graph.addReference tree importer reference).entry path =
      if path = importer then (graph.entry path).addReference tree importer reference
      else graph.entry path := by
  unfold addReference FileEntry.addReference
  cases Resolution.resolve? tree importer reference.specifier with
  | none => exact entry_consider _ _ _
  | some target =>
      by_cases ht : target = importer
      · simpa [ht] using entry_consider _ _ _
      · by_cases hp : path = importer <;> simp [ht, hp, entry_link, entry_consider]

theorem entry_foldl_addReference (importer : Path) (references : List ModuleReference) (path : Path) :
    (references.foldl (addReference tree importer) graph).entry path =
      if path = importer then references.foldl (FileEntry.addReference tree importer) (graph.entry path)
      else graph.entry path := by
  induction references generalizing graph with
  | nil => simp
  | cons reference rest ih =>
      rw [List.foldl_cons, ih, entry_addReference]
      split_ifs <;> rfl

theorem addFile_of_error {path : Path} {cause : FileError} (h : tree.read path.normalize = .error cause) :
    graph.addFile tree path = graph := by
  simp [addFile, h]

theorem addFile_of_ok {path : Path} {text : String} (h : tree.read path.normalize = .ok text) :
    graph.addFile tree path =
      ((ModuleReference.extract text).filter (·.isRelative)).foldl (addReference tree path.normalize)
        { graph with files := graph.files.insert path.normalize } := by
  simp [addFile, h]

/-- Adding a file changes its own entry only. -/
theorem entry_addFile (path other : Path) :
    (graph.addFile tree path).entry other =
      match tree.read path.normalize with
      | .error _ => graph.entry other
      | .ok text => if other = path.normalize then (graph.entry other).addText tree other text
          else graph.entry other := by
  cases hr : tree.read path.normalize with
  | error cause => rw [addFile_of_error hr]
  | ok text =>
      rw [addFile_of_ok hr, entry_foldl_addReference]
      simp only
      split_ifs with h
      · subst h
        simp [FileEntry.addText, entry]
      · simp [entry, Ne.symm h]

theorem entry_addFile_self {path : Path} (hp : path.IsNormal) (h : graph.entry path = .absent) :
    (graph.addFile tree path).entry path = .ofFile tree path := by
  rw [entry_addFile, hp.eq, FileEntry.ofFile]
  cases tree.read path <;> simp [h]

theorem entry_addFile_of_ne {path other : Path} (hp : path.IsNormal) (hne : other ≠ path) :
    (graph.addFile tree path).entry other = graph.entry other := by
  rw [entry_addFile, hp.eq]
  cases tree.read path <;> simp [hne]

/-! ## Dropping files and reading them again -/

theorem entry_dropFile (path other : Path) :
    (graph.dropFile path).entry other = if other = path then .absent else graph.entry other := by
  split_ifs with h
  · subst h
    simp [entry, dropFile, FileEntry.absent]
  · simp [entry, dropFile, Std.ExtTreeMap.getElem?_erase, Ne.symm h]

theorem entry_reread {path : Path} (hp : path.IsNormal) (other : Path) :
    (graph.reread tree path).entry other =
      if other = path then .ofFile tree path else graph.entry other := by
  unfold reread
  split_ifs with h
  · subst h
    exact entry_addFile_self hp (by simp [entry_dropFile])
  · rw [entry_addFile_of_ne hp h, entry_dropFile, if_neg h]

theorem entry_foldl_reread {paths : List Path} (hp : ∀ path ∈ paths, path.IsNormal) (other : Path) :
    (paths.foldl (reread tree) graph).entry other =
      if other ∈ paths then .ofFile tree other else graph.entry other := by
  induction paths generalizing graph with
  | nil => simp
  | cons path rest ih =>
      rw [List.foldl_cons, ih fun p h => hp p (by simp [h]), entry_reread (hp path (by simp))]
      by_cases hr : other ∈ rest <;> by_cases he : other = path <;> simp [hr, he]

theorem mem_dependentsOn_iff {path other : Path} :
    other ∈ graph.dependentsOn path ↔ other ≠ path ∧ (graph.entry other).Considers path := by
  simp only [dependentsOn, List.mem_map, List.mem_filter, Prod.exists,
    Std.ExtTreeMap.mem_toList_iff_getElem?_eq_some, FileEntry.Considers, entry]
  constructor
  · rintro ⟨_, paths, ⟨hg, h⟩, rfl⟩
    simpa [hg] using h
  · rintro ⟨hne, h⟩
    cases hg : graph.considered[other]? with
    | none => simp [hg] at h
    | some paths => exact ⟨other, paths, ⟨hg, by simpa [hg, hne] using h⟩, rfl⟩

end ImportGraph

end ApiImpact
