import Mathlib.Order.Bounds.Basic
import Mathlib.Data.List.Perm.Subperm
import Mathlib.Data.Nat.Find
import ApiImpact.Impact.Dependents
import ApiImpact.Proofs.Project.Coherence

/-!
# The files that depend on a file

The search for dependents goes by rounds. After `n` rounds it has found the files that are at most `n`
imports away from the changed file, and its frontier are those that are `n` imports away.
-/

namespace ApiImpact.ImportGraph

variable {graph : ImportGraph} {changed file : Path} {found : Std.ExtTreeMap Path Nat}
  {frontier : List Path} {n d : Nat}

/-- A chain of `n` imports leads from `file` to `target`. -/
inductive Chain (graph : ImportGraph) (target : Path) : Nat → Path → Prop where
  | nil : Chain graph target 0 target
  | cons {n : Nat} {file next : Path} : next ∈ graph.importsOf file → Chain graph target n next →
      Chain graph target (n + 1) file

/-- The shortest chain of imports from `file` to `target` has `n` of them. -/
def IsDistance (graph : ImportGraph) (target : Path) (n : Nat) (file : Path) : Prop :=
  IsLeast {length | Chain graph target length file} n

theorem Chain.exists_isDistance (h : Chain graph changed n file) :
    ∃ d ≤ n, IsDistance graph changed d file := by
  classical
  have hex : ∃ length, Chain graph changed length file := ⟨n, h⟩
  exact ⟨Nat.find hex, Nat.find_min' hex h, Nat.find_spec hex, fun _ hm => Nat.find_min' hex hm⟩

theorem IsDistance.unique (h : IsDistance graph changed n file) (h' : IsDistance graph changed d file) :
    n = d :=
  IsLeast.unique h h'

theorem isDistance_zero_iff : IsDistance graph changed 0 file ↔ file = changed := by
  constructor
  · intro h
    cases h.1
    rfl
  · rintro rfl
    exact ⟨.nil, fun _ _ => Nat.zero_le _⟩

/-- The next file on a shortest chain is one import closer. -/
theorem IsDistance.exists_next (h : IsDistance graph changed (n + 1) file) :
    ∃ next ∈ graph.importsOf file, IsDistance graph changed n next := by
  obtain ⟨hchain, hleast⟩ := h
  cases hchain with
  | @cons _ _ next hnext hrest =>
      exact ⟨next, hnext, hrest, fun m hm => Nat.le_of_succ_le_succ (hleast (hm.cons hnext))⟩

theorem IsDistance.ne_changed (h : IsDistance graph changed (n + 1) file) : file ≠ changed := by
  intro he
  have := (isDistance_zero_iff.mpr he).unique h
  omega

theorem IsDistance.mem_imports (h : IsDistance graph changed (n + 1) file) : file ∈ graph.imports := by
  obtain ⟨next, hnext, -⟩ := h.exists_next
  rw [Std.ExtTreeMap.mem_iff_isSome_getElem?]
  cases hg : graph.imports[file]? with
  | none => simp [importsOf, hg] at hnext
  | some targets => rfl

/-! ## Sizes -/

theorem size_le_of_subset {α β : Type} {m : Std.ExtTreeMap Path α} {m' : Std.ExtTreeMap Path β}
    (h : ∀ path ∈ m, path ∈ m') : m.size ≤ m'.size := by
  rw [← Std.ExtTreeMap.length_keys, ← Std.ExtTreeMap.length_keys]
  refine (Std.ExtTreeMap.nodup_keys.subperm fun path hp => ?_).length_le
  exact Std.ExtTreeMap.mem_keys.mpr (h path (Std.ExtTreeMap.mem_keys.mp hp))

theorem size_lt_of_subset {α : Type} {m m' : Std.ExtTreeMap Path α} {path : Path}
    (h : ∀ path ∈ m, path ∈ m') (hm : path ∉ m) (hm' : path ∈ m') : m.size < m'.size := by
  have hsub : ∀ other ∈ m.insert path m'[path], other ∈ m' := fun other ho => by
    rcases Std.ExtTreeMap.mem_insert.mp ho with he | ho
    · rwa [← Std.LawfulEqCmp.eq_of_compare he]
    · exact h other ho
  have hs := size_le_of_subset hsub
  rw [Std.ExtTreeMap.size_insert, if_neg (mt Std.ExtTreeMap.contains_iff_mem.mp hm)] at hs
  omega

/-! ## The search -/

/-- What the search knows after `n` rounds. -/
structure Searched (graph : ImportGraph) (changed : Path) (n : Nat) (found : Std.ExtTreeMap Path Nat)
    (frontier : List Path) : Prop where
  found_iff : ∀ file d, found[file]? = some d ↔ 0 < d ∧ d ≤ n ∧ IsDistance graph changed d file
  frontier_iff : ∀ file, file ∈ frontier ↔ IsDistance graph changed n file

theorem searched_start (graph : ImportGraph) (changed : Path) : Searched graph changed 0 ∅ [changed] where
  found_iff file d := by
    simp only [Std.ExtTreeMap.getElem?_empty, reduceCtorEq, false_iff]
    omega
  frontier_iff file := by rw [List.mem_singleton, isDistance_zero_iff]

theorem Searched.contains_iff (h : Searched graph changed n found frontier) :
    found.contains file = true ↔ ∃ d, 0 < d ∧ d ≤ n ∧ IsDistance graph changed d file := by
  rw [Std.ExtTreeMap.contains_eq_isSome_getElem?, Option.isSome_iff_exists]
  exact exists_congr fun d => h.found_iff file d

/-- A round finds the files that are one import farther away. -/
theorem Searched.mem_nextFrontier_iff (hg : graph.Mirrored)
    (h : Searched graph changed n found frontier) :
    file ∈ graph.nextFrontier changed found frontier ↔ IsDistance graph changed (n + 1) file := by
  simp only [nextFrontier, Std.ExtTreeSet.mem_toList, Std.ExtTreeSet.mem_ofList,
    List.contains_iff_mem, List.mem_filter, List.mem_flatMap, hg.mem_importersOf_iff, h.frontier_iff,
    Bool.and_eq_true, bne_iff_ne, Bool.not_eq_true']
  constructor
  · rintro ⟨⟨next, hnext, himport⟩, hne, hnew⟩
    have hchain : Chain graph changed (n + 1) file := .cons himport hnext.1
    refine ⟨hchain, fun m hm => ?_⟩
    obtain ⟨d, hd, hdistance⟩ := Chain.exists_isDistance hm
    -- A shorter chain would have led to the file in an earlier round.
    by_contra hlt
    have hpos : 0 < d := Nat.pos_of_ne_zero fun hz => hne (isDistance_zero_iff.mp (hz ▸ hdistance))
    have := h.contains_iff.mpr ⟨d, hpos, by omega, hdistance⟩
    simp [hnew] at this
  · intro hdistance
    obtain ⟨next, himport, hnext⟩ := hdistance.exists_next
    refine ⟨⟨next, hnext, himport⟩, hdistance.ne_changed, ?_⟩
    rw [Bool.eq_false_iff]
    intro hold
    obtain ⟨d, -, hd, hdistance'⟩ := h.contains_iff.mp hold
    have := hdistance.unique hdistance'
    omega

theorem getElem?_insertMany_map {α : Type} (map : Std.ExtTreeMap Path α) (files : List Path) (x : α) :
    (map.insertMany (files.map fun file => (file, x)))[file]? =
      if file ∈ files then some x else map[file]? := by
  induction files generalizing map with
  | nil => simp
  | cons first rest ih =>
      rw [List.map_cons, Std.ExtTreeMap.insertMany_cons, ih, Std.ExtTreeMap.getElem?_insert]
      by_cases hr : file ∈ rest
      · simp [hr]
      · by_cases hf : file = first
        · simp [hf]
        · simp [hr, hf, Ne.symm hf]

/-- After one more round the search knows the files that are one import farther away. -/
theorem Searched.next (hg : graph.Mirrored) (h : Searched graph changed n found frontier) :
    Searched graph changed (n + 1)
      (found.insertMany ((graph.nextFrontier changed found frontier).map fun file => (file, n + 1)))
      (graph.nextFrontier changed found frontier) where
  found_iff file d := by
    rw [getElem?_insertMany_map]
    split_ifs with hnext <;> rw [h.mem_nextFrontier_iff hg] at hnext
    · constructor
      · rintro ⟨⟩
        exact ⟨Nat.succ_pos n, le_rfl, hnext⟩
      · rintro ⟨-, -, hd⟩
        rw [hnext.unique hd]
    · rw [h.found_iff]
      constructor
      · rintro ⟨hpos, hle, hd⟩
        exact ⟨hpos, by omega, hd⟩
      · rintro ⟨hpos, hle, hd⟩
        have : d ≠ n + 1 := fun he => hnext (he ▸ hd)
        exact ⟨hpos, by omega, hd⟩
  frontier_iff file := h.mem_nextFrontier_iff hg

theorem le_of_isDistance (hend : ∀ file, ¬ IsDistance graph changed (n + 1) file)
    (hd : IsDistance graph changed d file) : d ≤ n := by
  induction d generalizing file with
  | zero => exact Nat.zero_le n
  | succ d ih =>
      obtain ⟨next, -, hnext⟩ := hd.exists_next
      have := ih hnext
      have : d ≠ n := fun he => hend file (he ▸ hd)
      omega

/-- A round that finds nothing ends the search. -/
theorem Searched.found_iff_of_end (h : Searched graph changed n found frontier)
    (hend : ∀ file, ¬ IsDistance graph changed (n + 1) file) :
    found[file]? = some d ↔ 0 < d ∧ IsDistance graph changed d file := by
  rw [h.found_iff]
  constructor
  · rintro ⟨hpos, -, hd⟩
    exact ⟨hpos, hd⟩
  · rintro ⟨hpos, hd⟩
    exact ⟨hpos, le_of_isDistance hend hd, hd⟩

theorem Searched.size_le (h : Searched graph changed n found frontier) :
    found.size ≤ graph.imports.size := by
  refine size_le_of_subset fun path hp => ?_
  obtain ⟨d, hpos, -, hd⟩ := h.contains_iff.mp (Std.ExtTreeMap.contains_iff_mem.mpr hp)
  obtain ⟨d, rfl⟩ := Nat.exists_eq_succ_of_ne_zero hpos.ne'
  exact hd.mem_imports

/-- A round that finds something finds something new. -/
theorem Searched.size_lt {found' : Std.ExtTreeMap Path Nat} {frontier' : List Path}
    (h : Searched graph changed n found frontier)
    (h' : Searched graph changed (n + 1) found' frontier') (hmore : frontier' ≠ []) :
    found.size < found'.size := by
  obtain ⟨first, hfirst⟩ := List.exists_mem_of_ne_nil _ hmore
  have hd := (h'.frontier_iff first).mp hfirst
  have hm : first ∈ found' :=
    Std.ExtTreeMap.contains_iff_mem.mp (h'.contains_iff.mpr ⟨n + 1, by omega, le_rfl, hd⟩)
  refine size_lt_of_subset (fun path hp => ?_) (fun hp => ?_) hm
  · obtain ⟨d, hpos, hle, hd⟩ := h.contains_iff.mp (Std.ExtTreeMap.contains_iff_mem.mpr hp)
    exact Std.ExtTreeMap.contains_iff_mem.mp (h'.contains_iff.mpr ⟨d, hpos, by omega, hd⟩)
  · obtain ⟨d, -, hle, hd'⟩ := h.contains_iff.mp (Std.ExtTreeMap.contains_iff_mem.mpr hp)
    have := hd.unique hd'
    omega

/-- The search finds all files from which a chain leads to the changed one, with their distances. It
takes no more rounds than there are importing files. -/
theorem Searched.reachFrom (hg : graph.Mirrored) {limit : Nat}
    (h : Searched graph changed n found frontier) (hl : graph.imports.size < found.size + limit) :
    (graph.reachFrom changed limit (n + 1) found frontier)[file]? = some d ↔
      0 < d ∧ IsDistance graph changed d file := by
  induction limit generalizing n found frontier with
  | zero =>
      have := h.size_le
      omega
  | succ limit ih =>
      rw [ImportGraph.reachFrom]
      split
      · rename_i hend
        rw [List.isEmpty_iff] at hend
        refine h.found_iff_of_end fun file hd => ?_
        have hm := (h.mem_nextFrontier_iff hg).mpr hd
        simp [hend] at hm
      · rename_i hmore
        refine ih (h.next hg) ?_
        have := h.size_lt (h.next hg) (mt List.isEmpty_iff.mpr hmore)
        omega

theorem distances_iff (hg : graph.Mirrored) :
    (graph.distances changed)[file]? = some d ↔ 0 < d ∧ IsDistance graph changed d file :=
  (searched_start graph changed).reachFrom hg (by omega)

/-! ## The dependents -/

variable {settings : Settings} {names : List String}

/-- `line` is where `importer` refers to `target`: the first reference that binds one of `names`, or else
the first one. -/
def IsLinkLine (graph : ImportGraph) (importer target : Path) (names : List String) (line : Nat) : Prop :=
  ∃ before reference after, graph.references importer target = before ++ reference :: after ∧
    reference.line = line ∧
    (names.any reference.binds = true ∧ (∀ other ∈ before, names.any other.binds = false) ∨
      before = [] ∧ ∀ other ∈ graph.references importer target, names.any other.binds = false)

theorem exists_linkLine {importer target : Path} (h : graph.references importer target ≠ []) :
    ∃ line, graph.linkLine? importer target names = some line ∧
      graph.IsLinkLine importer target names line := by
  have hline : graph.linkLine? importer target names =
      (((graph.references importer target).find? fun r => names.any r.binds).or
        (graph.references importer target).head?).map (·.line) := rfl
  cases hf : (graph.references importer target).find? fun r => names.any r.binds with
  | some reference =>
      obtain ⟨hb, before, after, hs, hbefore⟩ := List.find?_eq_some_iff_append.mp hf
      refine ⟨reference.line, by rw [hline, hf]; rfl, before, reference, after, hs, rfl, Or.inl ⟨hb, ?_⟩⟩
      simpa using hbefore
  | none =>
      obtain ⟨reference, rest, hs⟩ := List.exists_cons_of_ne_nil h
      refine ⟨reference.line, by rw [hline, hf, hs]; rfl, [], reference, rest, hs, rfl,
        Or.inr ⟨rfl, ?_⟩⟩
      rw [List.find?_eq_none] at hf
      simpa using hf

theorem mem_dependents_iff {dependent : Dependent} :
    dependent ∈ graph.dependents settings changed names ↔
      (graph.distances changed)[dependent.path]? = some dependent.depth ∧
      dependent.line = (if dependent.depth = 1 then graph.linkLine? dependent.path changed names
        else none) ∧
      dependent.isTest = isTest settings graph.root dependent.path := by
  simp only [dependents, List.mem_map, Prod.exists, Std.ExtTreeMap.mem_toList_iff_getElem?_eq_some]
  constructor
  · rintro ⟨path, depth, hd, rfl⟩
    exact ⟨hd, rfl, rfl⟩
  · rintro ⟨hd, hline, htest⟩
    exact ⟨_, _, hd, by rw [← hline, ← htest]⟩

theorem map_path_dependents (settings : Settings) (names : List String) :
    (graph.dependents settings changed names).map (·.path) = (graph.distances changed).keys := by
  rw [← Std.ExtTreeMap.map_fst_toList_eq_keys, dependents, List.map_map]
  rfl

theorem mem_keys_distances_iff (hg : graph.Mirrored) :
    file ∈ (graph.distances changed).keys ↔ file ≠ changed ∧ ∃ n, 0 < n ∧ Chain graph changed n file := by
  rw [Std.ExtTreeMap.mem_keys, Std.ExtTreeMap.mem_iff_isSome_getElem?, Option.isSome_iff_exists]
  simp only [distances_iff hg]
  constructor
  · rintro ⟨d, hpos, hd⟩
    obtain ⟨d, rfl⟩ := Nat.exists_eq_succ_of_ne_zero hpos.ne'
    exact ⟨hd.ne_changed, _, hpos, hd.1⟩
  · rintro ⟨hne, n, -, hchain⟩
    obtain ⟨d, -, hd⟩ := hchain.exists_isDistance
    exact ⟨d, Nat.pos_of_ne_zero fun hz => hne (isDistance_zero_iff.mp (hz ▸ hd)), hd⟩

/-- The dependents are exactly the other files from which a chain of imports leads to the changed file,
each once and in order of path. The depth is the length of the shortest chain, and the direct importers,
and no others, have the line that links them to the file. -/
theorem dependents_exact (h : graph.Reachable) (settings : Settings) (changed : Path)
    (names : List String) :
    (∀ file, file ∈ (graph.dependents settings changed names).map (·.path) ↔
      file ≠ changed ∧ ∃ n, 0 < n ∧ Chain graph changed n file) ∧
    ((graph.dependents settings changed names).map (·.path)).Pairwise (fun a b => compare a b = .lt) ∧
    ∀ dependent ∈ graph.dependents settings changed names,
      IsLeast {n | 0 < n ∧ Chain graph changed n dependent.path} dependent.depth ∧
      (dependent.depth = 1 → ∃ line, dependent.line = some line ∧
        graph.IsLinkLine dependent.path changed names line) ∧
      (dependent.depth ≠ 1 → dependent.line = none) := by
  have hg := h.coherent
  rw [map_path_dependents]
  refine ⟨fun file => mem_keys_distances_iff hg.toMirrored, Std.ExtTreeMap.ordered_keys, ?_⟩
  intro dependent hm
  obtain ⟨hd, hline, -⟩ := mem_dependents_iff.mp hm
  obtain ⟨hpos, hdistance⟩ := (distances_iff hg.toMirrored).mp hd
  refine ⟨⟨⟨hpos, hdistance.1⟩, fun n hn => hdistance.2 hn.2⟩, fun hone => ?_, fun hmore => ?_⟩
  · rw [hone] at hdistance
    obtain ⟨next, himport, hnext⟩ := hdistance.exists_next
    obtain rfl := isDistance_zero_iff.mp hnext
    rw [hline, if_pos hone]
    exact exists_linkLine (hg.references_ne himport)
  · rw [hline, if_neg hmore]

/-- Two files import each other, and a third one imports one of them. -/
theorem dependents_exact_cycle :
    let tree := FileTree.ofTexts
      [("/p/a.js", "import './b';\n"), ("/p/b.js", "import './a';\n"), ("/p/c.js", "import './b';\n")]
    ∃ graph, build? tree {} (.ofString "/p") = some graph ∧
      (graph.dependents {} (.ofString "/p/a.js") []).map (fun d => (d.path.toString, d.depth, d.line)) =
        [("/p/b.js", 1, some 1), ("/p/c.js", 2, none)] ∧
      ∃ n, 0 < n ∧ Chain graph (.ofString "/p/a.js") n (.ofString "/p/c.js") := by
  intro tree
  have hsome : (build? tree {} (.ofString "/p")).isSome = true := by decide +kernel
  let graph := (build? tree {} (.ofString "/p")).getD {}
  have hg : build? tree {} (.ofString "/p") = some graph := by
    rw [← Option.some_get hsome, Option.get_eq_getD]
  refine ⟨graph, hg, by decide +kernel, ?_⟩
  exact (((dependents_exact (.build hg) {} (.ofString "/p/a.js") []).1 (.ofString "/p/c.js")).mp
    (by decide +kernel)).2

end ApiImpact.ImportGraph
