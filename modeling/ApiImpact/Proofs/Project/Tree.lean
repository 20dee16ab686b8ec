import ApiImpact.Proofs.Path.Steps

/-!
# Files in memory

Files are stored under normal forms of paths that come from text. Directories and their entries are then
told by the steps of the stored files.
-/

namespace ApiImpact.FileTree

variable {tree : FileTree}

/-- Every file is stored under the normal form of a path that text writes. -/
def IsWritten (tree : FileTree) : Prop :=
  ∀ file ∈ tree.files, ∃ text, file = (Path.ofString text).normalize

/-- No file lies below another one. -/
def IsFlat (tree : FileTree) : Prop :=
  ∀ file ∈ tree.files, ∀ other ∈ tree.files, file.isUnder other → other = file

instance (tree : FileTree) : Decidable tree.IsFlat :=
  decidable_of_iff
    (∀ file ∈ tree.files.keys, ∀ other ∈ tree.files.keys, file.isUnder other → other = file)
    (by simp only [IsFlat, Std.ExtTreeMap.mem_keys])

/-- The tree with these paths and texts. -/
def ofTexts (files : List (String × String)) : FileTree :=
  files.foldl (fun tree (path, text) => tree.insert (.ofString path) text) {}

theorem isWritten_empty : ({} : FileTree).IsWritten := by
  intro file h
  simp at h

theorem IsWritten.insert (h : tree.IsWritten) {path : Path} {written : String}
    (hp : path = .ofString written) (text : String) : (tree.insert path text).IsWritten := by
  intro file hf
  rcases Std.ExtTreeMap.mem_insert.mp hf with he | hf
  · exact ⟨written, by rw [← Std.LawfulEqCmp.eq_of_compare he, hp]⟩
  · exact h file hf

theorem isWritten_ofTexts (files : List (String × String)) : (ofTexts files).IsWritten :=
  List.foldlRecOn (motive := IsWritten) _ _ isWritten_empty fun _ h _ _ => h.insert rfl _

theorem IsWritten.remove (h : tree.IsWritten) (path : Path) : (tree.remove path).IsWritten :=
  fun file hf => h file (Std.ExtTreeMap.mem_of_mem_erase hf)

theorem IsWritten.isNormal (h : tree.IsWritten) {file : Path} (hf : file ∈ tree.files) :
    file.IsNormal := by
  obtain ⟨text, rfl⟩ := h file hf
  exact Path.isNormal_normalize _

/-- The segments of a stored file can be read back from their text. -/
theorem IsWritten.segment (h : tree.IsWritten) {file : Path} (hf : file ∈ tree.files)
    {segment : Segment} (hs : some segment ∈ file.steps) : segment.IsWritten ∧ segment ≠ .here := by
  have hm : segment ∈ file.segments := by
    rw [← Path.filterMap_steps]
    exact List.mem_filterMap.mpr ⟨_, hs, rfl⟩
  have hsettled := Path.isNormal_iff.mp (h.isNormal hf)
  obtain ⟨text, rfl⟩ := h file hf
  constructor
  · rcases Path.mem_of_mem_normalize hm with hm | rfl
    · exact Path.isWritten_of_mem_ofString hm
    · trivial
  · rintro rfl
    cases hl : (Path.ofString text).normalize.segments with
    | nil => simp [hl] at hm
    | cons first rest =>
        rw [hl] at hm hsettled
        rcases List.mem_cons.mp hm with rfl | hm
        · simp [Path.Settled] at hsettled
        · simpa [Segment.isName] using hsettled.2 .here hm

/-! ## Files and directories -/

theorem isFile_iff {path : Path} (hp : path.IsNormal) : tree.isFile path ↔ path ∈ tree.files := by
  rw [isFile, hp.eq, Std.ExtTreeMap.contains_iff_mem]

theorem isFile_eq_false_iff {path : Path} (hp : path.IsNormal) :
    tree.isFile path = false ↔ path ∉ tree.files := by
  rw [Bool.eq_false_iff, ne_eq, isFile_iff hp]

theorem isDirectory_iff {path : Path} (hp : path.IsNormal) :
    tree.isDirectory path ↔ ∃ file ∈ tree.files, file ≠ path ∧ path.steps <+: file.steps := by
  simp [isDirectory, hp.eq, Path.isUnder_iff]

/-- A directory lists the first steps that lead from it to a file. -/
theorem mem_names_iff {directory : Path} (hd : directory.IsNormal) {name : String} :
    name ∈ tree.names directory ↔ ∃ file ∈ tree.files, ∃ step rest,
      file.steps = directory.steps ++ step :: rest ∧ name = Path.stepName step := by
  simp only [names, hd.eq, Std.ExtTreeSet.mem_toList, Std.ExtTreeSet.mem_ofList,
    List.contains_iff_mem, List.mem_filterMap, Std.ExtTreeMap.mem_keys, Option.bind_eq_some_iff,
    Path.firstName?_eq, Path.relativeTo?_eq_some_iff, Option.map_eq_some_iff,
    List.head?_eq_some_iff]
  constructor
  · rintro ⟨file, hf, inner, hi, step, ⟨rest, hr⟩, rfl⟩
    exact ⟨file, hf, step, rest, by rw [hi, hr], rfl⟩
  · rintro ⟨file, hf, step, rest, hs, rfl⟩
    obtain ⟨inner, hi⟩ := Path.exists_steps_eq_of_append hs
    exact ⟨file, hf, inner, by rw [hs, hi], step, ⟨rest, hi⟩, rfl⟩

theorem nodup_names (directory : Path) : (tree.names directory).Nodup :=
  Std.ExtTreeSet.distinct_toList.imp fun h he => h (by simp [he])

/-- A name that a directory lists leads to the path that is one step closer to the files. -/
theorem IsWritten.steps_child (h : tree.IsWritten) {directory file : Path} {step : Option Segment}
    {rest : List (Option Segment)} (hf : file ∈ tree.files)
    (hs : file.steps = directory.steps ++ step :: rest) :
    (directory.join (.ofString (Path.stepName step))).steps = directory.steps ++ [step] := by
  refine Path.steps_join_ofString (fun segment he => h.segment hf (by simp [hs, he])) fun he => ?_
  have hn := file.none_notMem_tail_steps
  rw [hs, he] at hn
  cases hd : directory.steps with
  | nil => rfl
  | cons first others => simp [hd] at hn

theorem IsWritten.isNormal_child (h : tree.IsWritten) {directory file : Path} {step : Option Segment}
    {rest : List (Option Segment)} (hf : file ∈ tree.files)
    (hs : file.steps = directory.steps ++ step :: rest) :
    (directory.join (.ofString (Path.stepName step))).IsNormal := by
  refine (h.isNormal hf).of_prefix_steps ?_
  rw [h.steps_child hf hs, hs]
  exact ⟨rest, by simp⟩

theorem isDirectory_of_mem_files {directory file : Path} (hd : directory.IsNormal)
    (hf : file ∈ tree.files) (hne : file ≠ directory) (hp : directory.steps <+: file.steps) :
    tree.isDirectory directory = true :=
  (isDirectory_iff hd).mpr ⟨file, hf, hne, hp⟩

/-- In a flat tree no file is a directory. -/
theorem IsFlat.isDirectory_eq_false (h : tree.IsFlat) (hw : tree.IsWritten) {file : Path}
    (hf : file ∈ tree.files) : tree.isDirectory file = false := by
  rw [Bool.eq_false_iff]
  intro hd
  obtain ⟨other, ho, hne, hp⟩ := (isDirectory_iff (hw.isNormal hf)).mp hd
  exact hne (h file hf other ho (Path.isUnder_iff.mpr hp))

/-! ## Reading -/

theorem read_eq_ok_iff {path : Path} {text : String} :
    tree.read path = .ok text ↔
      tree.isDenied path = false ∧ tree.files[path.normalize]? = some text := by
  unfold read
  cases tree.isDenied path <;> cases tree.files[path.normalize]? <;> simp

theorem isDenied_eq_false (h : tree.denied = ∅) (path : Path) : tree.isDenied path = false := by
  simp [isDenied, h]

/-! ## Changed files -/

/-- The trees differ at most in the files `changed`. -/
structure AgreesOff (tree other : FileTree) (changed : List Path) : Prop where
  denied : other.denied = tree.denied
  files : ∀ path, path ∉ changed → other.files[path]? = tree.files[path]?

theorem agreesOff_insert (tree : FileTree) (path : Path) (text : String) :
    tree.AgreesOff (tree.insert path text) [path.normalize] := by
  refine ⟨rfl, fun other h => ?_⟩
  rw [List.mem_singleton] at h
  simp [insert, Std.ExtTreeMap.getElem?_insert, Ne.symm h]

theorem agreesOff_remove (tree : FileTree) (path : Path) :
    tree.AgreesOff (tree.remove path) [path.normalize] := by
  refine ⟨rfl, fun other h => ?_⟩
  rw [List.mem_singleton] at h
  simp [remove, Std.ExtTreeMap.getElem?_erase, Ne.symm h]

theorem AgreesOff.trans {middle other : FileTree} {changed changed' : List Path}
    (h : tree.AgreesOff middle changed) (h' : middle.AgreesOff other changed') :
    tree.AgreesOff other (changed ++ changed') := by
  refine ⟨h'.denied.trans h.denied, fun path hp => ?_⟩
  rw [List.mem_append, not_or] at hp
  exact (h'.files path hp.2).trans (h.files path hp.1)

theorem AgreesOff.mem_iff {other : FileTree} {changed : List Path} (h : tree.AgreesOff other changed)
    {path : Path} (hp : path ∉ changed) : path ∈ tree.files ↔ path ∈ other.files := by
  rw [Std.ExtTreeMap.mem_iff_isSome_getElem?, Std.ExtTreeMap.mem_iff_isSome_getElem?, h.files path hp]

theorem AgreesOff.read_eq {other : FileTree} {changed : List Path} (h : tree.AgreesOff other changed)
    {path : Path} (hn : path.IsNormal) (hp : path ∉ changed) : tree.read path = other.read path := by
  simp only [read, isDenied, h.denied, hn.eq, h.files path hp]

end ApiImpact.FileTree
