import Mathlib.Data.List.Nodup
import ApiImpact.Proofs.Project.Tree

/-!
# The walk through a project

A walk comes to every source file below its directory that no skipped or unreadable directory hides, and
to each of them once.
-/

namespace ApiImpact.ImportGraph

open ApiImpact.Path (stepName)

variable {tree : FileTree} {settings : Settings}

/-- A walk from `root` heads for `file`: it lies below `root`, and no directory between them has a skipped
name. -/
def isWalked (settings : Settings) (root file : Path) : Bool :=
  match Path.relativeTo? root file with
  | some inner => !inner.steps.isEmpty
      && (directoryNames inner).all fun name => !settings.skippedDirs.contains name
  | none => false

/-- Every directory from `root` down to `file` can be listed. -/
def IsOpen (tree : FileTree) (root file : Path) : Prop :=
  ∀ directory : Path, root.isUnder directory → directory.isUnder file → directory ≠ file →
    tree.isDenied directory = false

/-- A walk from `root` finds `file`. -/
structure Finds (tree : FileTree) (settings : Settings) (root file : Path) : Prop where
  stored : file ∈ tree.files
  source : file.isSource = true
  single : tree.isDirectory file = false
  walked : isWalked settings root file = true
  opened : IsOpen tree root file

theorem isWalked_iff {root file : Path} :
    isWalked settings root file ↔ ∃ inner, file.steps = root.steps ++ inner ∧ inner ≠ [] ∧
      ∀ step ∈ inner.dropLast, stepName step ∉ settings.skippedDirs := by
  unfold isWalked
  constructor
  · intro h
    split at h
    · rename_i inner hi
      refine ⟨inner.steps, Path.relativeTo?_eq_some_iff.mp hi, ?_⟩
      simpa [Path.directoryNames_eq, -List.map_dropLast] using h
    · cases h
  · rintro ⟨back, hs, h⟩
    obtain ⟨inner, rfl⟩ := Path.exists_steps_eq_of_append hs
    rw [Path.relativeTo?_eq_some_iff.mpr hs]
    simpa [Path.directoryNames_eq, -List.map_dropLast] using h

/-- What a walk does at one entry of a directory. -/
def visit (tree : FileTree) (settings : Settings) (depth : Nat) (directory : Path) (name : String) :
    List Path :=
  let path := directory.join (.ofString name)
  if tree.isDirectory path then
    if settings.skippedDirs.contains name then [] else walk tree settings depth path
  else if path.isSource then [path]
  else []

theorem walk_succ (depth : Nat) (directory : Path) :
    walk tree settings (depth + 1) directory = if tree.isDenied directory then [] else
      (tree.names directory).flatMap (visit tree settings depth directory) := by
  rw [walk, FileTree.list]
  cases tree.isDenied directory with
  | true => rfl
  | false =>
      cases hn : tree.names directory with
      | nil => simp
      | cons name names => rfl

/-! ## One step down -/

section

variable {directory child file : Path} {step : Option Segment} {rest : List (Option Segment)}

theorem isWalked_of_child_eq (hs : file.steps = directory.steps ++ [step]) :
    isWalked settings directory file = true :=
  isWalked_iff.mpr ⟨[step], hs, by simp, by simp⟩

theorem isWalked_iff_of_child (hc : child.steps = directory.steps ++ [step])
    (hs : file.steps = directory.steps ++ step :: rest) (hne : rest ≠ []) :
    isWalked settings directory file ↔
      stepName step ∉ settings.skippedDirs ∧ isWalked settings child file := by
  have hs' : file.steps = child.steps ++ rest := by simp [hc, hs]
  rw [isWalked_iff, isWalked_iff]
  constructor
  · rintro ⟨inner, hi, -, h⟩
    obtain rfl : step :: rest = inner := List.append_cancel_left (hs ▸ hi)
    rw [List.dropLast_cons_of_ne_nil hne] at h
    exact ⟨h step (by simp), rest, hs', hne, fun other ho => h other (by simp [ho])⟩
  · rintro ⟨hstep, inner, hi, -, h⟩
    obtain rfl : rest = inner := List.append_cancel_left (hs' ▸ hi)
    refine ⟨step :: rest, hs, by simp, ?_⟩
    rw [List.dropLast_cons_of_ne_nil hne]
    simpa using ⟨hstep, h⟩

theorem isOpen_iff_of_child (hc : child.steps = directory.steps ++ [step])
    (hs : file.steps = directory.steps ++ step :: rest) :
    IsOpen tree directory file ↔ tree.isDenied directory = false ∧ IsOpen tree child file := by
  have hs' : file.steps = child.steps ++ rest := by simp [hc, hs]
  constructor
  · intro h
    refine ⟨h directory (Path.isUnder_iff.mpr (List.prefix_refl _))
      (Path.isUnder_iff.mpr (hs ▸ List.prefix_append _ _)) ?_, fun other hl hr hne => ?_⟩
    · rintro rfl
      simpa using congrArg List.length hs
    · refine h other (Path.isUnder_iff.mpr ?_) hr hne
      exact (hc ▸ List.prefix_append _ _ : directory.steps <+: child.steps).trans
        (Path.isUnder_iff.mp hl)
  · rintro ⟨hd, h⟩ other hl hr hne
    obtain ⟨back, hb⟩ := Path.isUnder_iff.mp hl
    cases back with
    | nil =>
        obtain rfl : directory = other := Path.steps_injective (by simpa using hb)
        exact hd
    | cons first back =>
        refine h other (Path.isUnder_iff.mpr ?_) hr hne
        have hp := Path.isUnder_iff.mp hr
        rw [← hb, hs, List.prefix_append_right_inj, List.cons_prefix_cons] at hp
        rw [hc, ← hb, List.prefix_append_right_inj, hp.1]
        exact ⟨back, rfl⟩

theorem isOpen_self (file : Path) : IsOpen tree file file := by
  intro directory hl hr hne
  have hp := (Path.isUnder_iff.mp hr).eq_of_length_le (Path.isUnder_iff.mp hl).length_le
  exact absurd (Path.steps_injective hp) hne

theorem finds_iff_of_child (hc : child.steps = directory.steps ++ [step])
    (hs : file.steps = directory.steps ++ step :: rest) (hne : rest ≠ []) :
    Finds tree settings directory file ↔ tree.isDenied directory = false ∧
      stepName step ∉ settings.skippedDirs ∧ Finds tree settings child file := by
  constructor
  · rintro ⟨stored, source, single, walked, opened⟩
    have hw := (isWalked_iff_of_child hc hs hne).mp walked
    have ho := (isOpen_iff_of_child hc hs).mp opened
    exact ⟨ho.1, hw.1, stored, source, single, hw.2, ho.2⟩
  · rintro ⟨hd, hstep, stored, source, single, walked, opened⟩
    exact ⟨stored, source, single, (isWalked_iff_of_child hc hs hne).mpr ⟨hstep, walked⟩,
      (isOpen_iff_of_child hc hs).mpr ⟨hd, opened⟩⟩

theorem finds_child_iff (hc : child.steps = directory.steps ++ [step]) :
    Finds tree settings directory child ↔ tree.isDenied directory = false ∧ child ∈ tree.files ∧
      child.isSource = true ∧ tree.isDirectory child = false := by
  constructor
  · rintro ⟨stored, source, single, -, opened⟩
    exact ⟨((isOpen_iff_of_child hc hc).mp opened).1, stored, source, single⟩
  · rintro ⟨hd, stored, source, single⟩
    exact ⟨stored, source, single, isWalked_of_child_eq hc,
      (isOpen_iff_of_child hc hc).mpr ⟨hd, isOpen_self child⟩⟩

end

/-! ## What a walk finds -/

section Visit

variable {depth : Nat} {directory other file : Path} {step : Option Segment}
  {rest : List (Option Segment)}

theorem finds_of_mem_visit (hw : tree.IsWritten)
    (ih : ∀ {directory : Path}, directory.IsNormal →
      (file ∈ walk tree settings depth directory ↔ Finds tree settings directory file ∧
        file.steps.length ≤ directory.steps.length + depth))
    (hopen : tree.isDenied directory = false) (ho : other ∈ tree.files)
    (hs : other.steps = directory.steps ++ step :: rest)
    (h : file ∈ visit tree settings depth directory (stepName step)) :
    Finds tree settings directory file ∧ directory.steps ++ [step] <+: file.steps ∧
      file.steps.length ≤ directory.steps.length + (depth + 1) := by
  have hc := hw.steps_child ho hs
  have hn := hw.isNormal_child ho hs
  simp only [visit] at h
  generalize directory.join (.ofString (stepName step)) = child at hc hn h
  have hpre : child.steps <+: other.steps := ⟨rest, by simp [hc, hs]⟩
  split at h
  · split at h
    · cases h
    · rename_i hstep
      obtain ⟨hfinds, hl⟩ := (ih hn).mp h
      obtain ⟨inner, hi, hne, -⟩ := isWalked_iff.mp hfinds.walked
      have hi' : file.steps = directory.steps ++ step :: inner := by simp [hi, hc]
      refine ⟨(finds_iff_of_child hc hi' hne).mpr ⟨hopen, by simpa using hstep, hfinds⟩, ?_, ?_⟩
      · exact ⟨inner, by simp [hi']⟩
      · rw [hc, List.length_append, List.length_singleton] at hl
        omega
  · rename_i hsingle
    split at h
    · rename_i hsource
      obtain rfl := List.mem_singleton.mp h
      -- The entry is no directory, so the file that the directory lists it for is the entry itself.
      have hstored : file ∈ tree.files := by
        by_cases he : other = file
        · exact he ▸ ho
        · exact absurd (FileTree.isDirectory_of_mem_files hn ho he hpre) hsingle
      refine ⟨(finds_child_iff hc).mpr ⟨hopen, hstored, hsource, by simpa using hsingle⟩, ?_, ?_⟩
      · exact hc ▸ List.prefix_refl _
      · simp [hc]
    · cases h

theorem mem_visit_of_finds (hw : tree.IsWritten)
    (ih : ∀ {directory : Path}, directory.IsNormal →
      (file ∈ walk tree settings depth directory ↔ Finds tree settings directory file ∧
        file.steps.length ≤ directory.steps.length + depth))
    (ho : other ∈ tree.files) (hs : other.steps = directory.steps ++ step :: rest)
    (hfinds : Finds tree settings directory file) (hp : directory.steps ++ [step] <+: file.steps)
    (hl : file.steps.length ≤ directory.steps.length + (depth + 1)) :
    file ∈ visit tree settings depth directory (stepName step) := by
  have hc := hw.steps_child ho hs
  have hn := hw.isNormal_child ho hs
  simp only [visit]
  generalize directory.join (.ofString (stepName step)) = child at hc hn
  obtain ⟨inner, hi⟩ := hp
  cases inner with
  | nil =>
      obtain rfl : child = file := Path.steps_injective (by rw [hc, ← hi, List.append_nil])
      simp [hfinds.single, hfinds.source]
  | cons next inner =>
      have hi' : file.steps = directory.steps ++ step :: next :: inner := by simp [← hi]
      have hne : file ≠ child := by
        rintro rfl
        simpa [hi'] using congrArg List.length hc
      obtain ⟨-, hstep, hfinds'⟩ := (finds_iff_of_child hc hi' (by simp)).mp hfinds
      have hdir := FileTree.isDirectory_of_mem_files hn hfinds.stored hne (by simp [hc, hi'])
      rw [if_pos hdir, if_neg (by simpa using hstep)]
      refine (ih hn).mpr ⟨hfinds', ?_⟩
      rw [hc, List.length_append, List.length_singleton]
      omega

end Visit

/-- A walk that may go down `fuel` steps finds the files that are no deeper. -/
theorem mem_walk_iff (hw : tree.IsWritten) (fuel : Nat) {directory : Path} (hd : directory.IsNormal)
    {file : Path} :
    file ∈ walk tree settings fuel directory ↔ Finds tree settings directory file ∧
      file.steps.length ≤ directory.steps.length + fuel := by
  induction fuel generalizing directory with
  | zero =>
      simp only [walk, List.not_mem_nil, false_iff, not_and]
      rintro ⟨-, -, -, h, -⟩ hl
      obtain ⟨inner, hi, hne, -⟩ := isWalked_iff.mp h
      have := List.length_pos_iff.mpr hne
      rw [hi, List.length_append] at hl
      omega
  | succ fuel ih =>
      rw [walk_succ]
      constructor
      · intro h
        split at h
        · cases h
        · rename_i hopen
          obtain ⟨name, hn, hf⟩ := List.mem_flatMap.mp h
          obtain ⟨other, ho, step, rest, hs, rfl⟩ := (FileTree.mem_names_iff hd).mp hn
          obtain ⟨hfinds, -, hl⟩ := finds_of_mem_visit hw ih (by simpa using hopen) ho hs hf
          exact ⟨hfinds, hl⟩
      · rintro ⟨hfinds, hl⟩
        obtain ⟨inner, hi, hne, -⟩ := isWalked_iff.mp hfinds.walked
        obtain ⟨step, rest, rfl⟩ := List.exists_cons_of_ne_nil hne
        have hc := hw.steps_child hfinds.stored hi
        have hopen := ((isOpen_iff_of_child hc hi).mp hfinds.opened).1
        rw [if_neg (by simp [hopen]), List.mem_flatMap]
        refine ⟨stepName step, ?_, mem_visit_of_finds hw ih hfinds.stored hi hfinds ?_ hl⟩
        · exact (FileTree.mem_names_iff hd).mpr ⟨file, hfinds.stored, step, rest, hi, rfl⟩
        · exact ⟨rest, by simp [hi]⟩

/-- No file is found twice: different entries of a directory lead to different files. -/
theorem nodup_walk (hw : tree.IsWritten) (fuel : Nat) {directory : Path} (hd : directory.IsNormal) :
    (walk tree settings fuel directory).Nodup := by
  induction fuel generalizing directory with
  | zero => simp [walk]
  | succ fuel ih =>
      rw [walk_succ]
      split
      · exact List.nodup_nil
      rename_i hopen
      rw [List.nodup_flatMap]
      constructor
      · intro name hn
        obtain ⟨other, ho, step, rest, hs, rfl⟩ := (FileTree.mem_names_iff hd).mp hn
        simp only [visit]
        split
        · split
          · exact List.nodup_nil
          · exact ih (hw.isNormal_child ho hs)
        · split <;> simp
      · refine (FileTree.nodup_names directory).imp_of_mem fun ha hb hne => ?_
        obtain ⟨other, ho, step, rest, hs, rfl⟩ := (FileTree.mem_names_iff hd).mp ha
        obtain ⟨other', ho', step', rest', hs', rfl⟩ := (FileTree.mem_names_iff hd).mp hb
        refine List.disjoint_left.mpr fun file hf hf' => ?_
        have hwalk {directory : Path} (hd : directory.IsNormal) :
            file ∈ walk tree settings fuel directory ↔ Finds tree settings directory file ∧
              file.steps.length ≤ directory.steps.length + fuel := mem_walk_iff hw fuel hd
        obtain ⟨-, hp, -⟩ := finds_of_mem_visit hw hwalk (by simpa using hopen) ho hs hf
        obtain ⟨-, hp', -⟩ := finds_of_mem_visit hw hwalk (by simpa using hopen) ho' hs' hf'
        have he := (List.prefix_of_prefix_length_le hp hp' (by simp)).eq_of_length (by simp)
        simp only [List.append_cancel_left_eq, List.cons.injEq, and_true] at he
        exact hne (by rw [he])

/-- No file is deeper than the tree. -/
theorem length_steps_le_depth {file : Path} (hf : file ∈ tree.files) :
    file.steps.length ≤ tree.depth := by
  have hfold (files : List Path) (deepest : Nat) :
      deepest ≤ files.foldl (fun deepest file => max deepest file.steps.length) deepest ∧
        ∀ file ∈ files, file.steps.length ≤
          files.foldl (fun deepest file => max deepest file.steps.length) deepest := by
    induction files generalizing deepest with
    | nil => simp
    | cons first rest ih =>
        obtain ⟨hstart, hrest⟩ := ih (max deepest first.steps.length)
        refine ⟨by simp only [List.foldl_cons]; omega, fun file hf => ?_⟩
        rcases List.mem_cons.mp hf with rfl | hf
        · simp only [List.foldl_cons]
          omega
        · exact hrest file hf
  exact (hfold _ 0).2 file (Std.ExtTreeMap.mem_keys.mpr hf)

/-- The walk of a whole project finds all there is to find. -/
theorem mem_walk_depth_iff (hw : tree.IsWritten) {root file : Path} (hr : root.IsNormal) :
    file ∈ walk tree settings (tree.depth + 1) root ↔ Finds tree settings root file := by
  rw [mem_walk_iff hw _ hr, and_iff_left_iff_imp]
  intro h
  have := length_steps_le_depth h.stored
  omega

end ApiImpact.ImportGraph
