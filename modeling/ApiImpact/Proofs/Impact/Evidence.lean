import ApiImpact.Impact.Tests
import ApiImpact.Proofs.Impact.Dependents
import ApiImpact.Proofs.Result

/-!
# What ties a test to a file

A test is affected if it depends on the changed file, or if its own text ties it to that file. The text of
a test that is said to import the file either does so, or names the file where no name is asked for.
-/

namespace ApiImpact.ImportGraph

variable {tree : FileTree} {graph : ImportGraph} {settings : Settings} {changed test file : Path}
  {names : List String} {dependents : List Dependent} {tests : List AffectedTest} {evidence : Evidence}
  {affected affected' : Std.ExtTreeMap Path Evidence} {reference : ModuleReference}
  {references named : List ModuleReference}

/-! ## Imports -/

/-- The reference in the file `test` resolves to `changed`. -/
def ResolvesTo (tree : FileTree) (test changed : Path) (reference : ModuleReference) : Prop :=
  reference.isRelative = true ∧ Resolution.resolve? tree test reference.specifier = some changed

/-- The reference in the file `test` resolves to no file, and ends in the name of `changed`. -/
def OnlyNames (tree : FileTree) (test changed : Path) (reference : ModuleReference) : Prop :=
  (reference.isRelative = true → Resolution.resolve? tree test reference.specifier = none) ∧
    Usage.namesTarget reference.specifier (Usage.targetName changed) = true

instance (reference : ModuleReference) : Decidable (OnlyNames tree test changed reference) :=
  inferInstanceAs (Decidable ((_ → _) ∧ _))

theorem namesTarget_iff {specifier target : String} : Usage.namesTarget specifier target = true ↔
    Text.beginsWith specifier "node:" = false ∧ '/' ∈ specifier.toList ∧
      Usage.namingSegment specifier ≠ [] ∧
        (Path.ofString (.ofList (Usage.namingSegment specifier))).stem = target := by
  simp [Usage.namesTarget, and_assoc]

theorem ite_isRelative_eq_none_iff {found : Option Path} :
    (if reference.isRelative = true then found else none) = none ↔
      (reference.isRelative = true → found = none) := by
  split_ifs with h <;> simp [h]

theorem importEvidence_eq_resolved_iff :
    importEvidence tree test changed references = .resolved ↔
      ∃ reference ∈ references, ResolvesTo tree test changed reference := by
  fun_induction importEvidence tree test changed references with
  | case1 => simp
  | case2 reference rest found hfound ih =>
      have hres : ResolvesTo tree test changed reference := Option.ite_none_right_eq_some.mp hfound
      exact iff_of_true rfl ⟨reference, List.mem_cons_self, hres⟩
  | case3 reference rest found target hfound hne ih =>
      have hother : ¬ResolvesTo tree test changed reference := by
        intro hres
        have hchanged : found = some changed := Option.ite_none_right_eq_some.mpr hres
        exact hne (Option.some.inj (hfound.symm.trans hchanged))
      rw [ih, List.exists_mem_cons_iff, or_iff_right hother]
  | case4 reference rest found hrest hfound ih =>
      obtain ⟨later, hlater, hres⟩ := ih.mp hrest
      exact iff_of_true rfl ⟨later, List.mem_cons_of_mem _ hlater, hres⟩
  | case5 reference rest found later hrest hfound hnames ih
  | case6 reference rest found later hrest hfound hnames ih =>
      have hother : ¬ResolvesTo tree test changed reference := by
        rintro ⟨hrel, hres⟩
        have hnone := ite_isRelative_eq_none_iff.mp hfound hrel
        rw [hres] at hnone
        cases hnone
      have hnone : ¬∃ reference ∈ rest, ResolvesTo tree test changed reference := by
        rw [← ih, hrest]
        exact nofun
      rw [List.exists_mem_cons_iff]
      exact iff_of_false nofun (not_or.mpr ⟨hother, hnone⟩)

/-- Where no reference resolves to the changed file, those that only name it are kept. -/
theorem eq_filter_of_importEvidence : ∀ named, importEvidence tree test changed references = .named named →
    named = references.filter fun reference => decide (OnlyNames tree test changed reference) := by
  fun_induction importEvidence tree test changed references with
  | case1 =>
      rintro _ ⟨⟩
      rfl
  | case2 => exact nofun
  | case3 reference rest found target hfound hne ih =>
      have hother : ¬OnlyNames tree test changed reference := by
        rintro ⟨hnone, -⟩
        have hnone : found = none := ite_isRelative_eq_none_iff.mpr hnone
        rw [hfound] at hnone
        cases hnone
      rw [List.filter_cons_of_neg (by simpa using hother)]
      exact ih
  | case4 => exact nofun
  | case5 reference rest found later hrest hfound hnames ih =>
      rintro _ ⟨⟩
      have hnamed : OnlyNames tree test changed reference := ⟨ite_isRelative_eq_none_iff.mp hfound, hnames⟩
      rw [List.filter_cons_of_pos (by simpa using hnamed), ← ih later hrest]
  | case6 reference rest found later hrest hfound hnames ih =>
      rintro _ ⟨⟩
      rw [List.filter_cons_of_neg (by simp [OnlyNames, hnames])]
      exact ih later hrest

theorem usageEvidence_ne_importsFile {source : String} :
    usageEvidence test source named names ≠ .ok (some .importsFile) := by
  intro h
  unfold usageEvidence at h
  split at h
  · obtain ⟨used, -, h⟩ := bind_eq_ok_iff.mp h
    cases used <;> cases h
  · cases hu : Usage.inText source named names <;> rw [hu] at h <;> cases h

/-- The text of a test says that it imports the file when one of its references resolves to the file, or,
where no names are asked for, when one of them only names it. -/
theorem prove_eq_importsFile_iff : prove tree test changed names = .ok (some .importsFile) ↔
    ∃ source, tree.read test = .ok source ∧
      ((∃ reference ∈ ModuleReference.extract source, ResolvesTo tree test changed reference) ∨
        names = [] ∧ ∃ reference ∈ ModuleReference.extract source,
          OnlyNames tree test changed reference) := by
  unfold prove
  cases hread : tree.read test with
  | error cause => simp
  | ok source =>
      simp only [Except.ok.injEq, exists_eq_left']
      cases hevidence : importEvidence tree test changed (ModuleReference.extract source) with
      | resolved => exact iff_of_true rfl (.inl (importEvidence_eq_resolved_iff.mp hevidence))
      | named named =>
          have hnone : ¬∃ reference ∈ ModuleReference.extract source,
              ResolvesTo tree test changed reference := by
            rw [← importEvidence_eq_resolved_iff, hevidence]
            exact nofun
          have hnamed : (∃ reference ∈ ModuleReference.extract source,
              OnlyNames tree test changed reference) ↔ named ≠ [] := by
            rw [eq_filter_of_importEvidence named hevidence, Ne, List.filter_eq_nil_iff]
            simp
          rw [or_iff_right hnone, hnamed]
          cases named with
          | nil => simp
          | cons first rest =>
              by_cases hnames : names = []
              · simp [hnames]
              · simp [hnames, usageEvidence_ne_importsFile]

/-! ## Tests -/

theorem getElem?_dependentTests : (dependentTests dependents)[file]? =
    if ∃ d ∈ dependents, d.isTest = true ∧ d.path = file then some .graph else none := by
  have hpaths : (dependents.filter (·.isTest)).map (fun d => (d.path, Evidence.graph)) =
      ((dependents.filter (·.isTest)).map (·.path)).map fun file => (file, Evidence.graph) := by
    rw [List.map_map]
    rfl
  rw [dependentTests, hpaths, Std.ExtTreeMap.ofList_eq_insertMany_empty, getElem?_insertMany_map]
  simp [and_assoc]

/-- One more test changes nothing but its own entry, which stays if there is one. -/
theorem getElem?_addTest (h : addTest tree changed names affected test = .ok affected') (file : Path)
    (evidence : Evidence) :
    affected'[file]? = some evidence ↔ affected[file]? = some evidence ∨
      affected[file]? = none ∧ file = test ∧ file ≠ changed ∧
        prove tree file changed names = .ok (some evidence) := by
  unfold addTest at h
  split_ifs at h with hskip
  · cases h
    refine (or_iff_left ?_).symm
    rintro ⟨hnone, rfl, hne, -⟩
    rw [Std.ExtTreeMap.contains_eq_isSome_getElem?, hnone] at hskip
    simp [hne] at hskip
  · obtain ⟨hne, hnew⟩ : test ≠ changed ∧ affected[test]? = none := by
      rw [Std.ExtTreeMap.contains_eq_isSome_getElem?] at hskip
      simpa using hskip
    obtain ⟨found, hproof, h⟩ := bind_eq_ok_iff.mp h
    cases found with
    | none =>
        cases h
        refine (or_iff_left ?_).symm
        rintro ⟨-, rfl, -, hprove⟩
        rw [hproof] at hprove
        cases hprove
    | some found =>
        cases h
        by_cases hfile : file = test
        · subst hfile
          simp [hnew, hne, hproof]
        · simp [Std.ExtTreeMap.getElem?_insert, hfile, Ne.symm hfile]

/-- After all tests, an entry is either an old one or what the text of a test shows. -/
theorem getElem?_foldlM_addTest {files : List Path}
    (h : files.foldlM (addTest tree changed names) affected = .ok affected') :
    affected'[file]? = some evidence ↔ affected[file]? = some evidence ∨
      affected[file]? = none ∧ file ∈ files ∧ file ≠ changed ∧
        prove tree file changed names = .ok (some evidence) := by
  induction files generalizing affected with
  | nil =>
      cases h
      simp
  | cons first rest ih =>
      rw [List.foldlM_cons] at h
      obtain ⟨next, hstep, h⟩ := bind_eq_ok_iff.mp h
      have hfirst := getElem?_addTest hstep file
      rw [ih h, hfirst, List.mem_cons]
      constructor
      · rintro ((hold | ⟨hnone, hfile, hrest⟩) | ⟨hnone, hmem, hrest⟩)
        · exact .inl hold
        · exact .inr ⟨hnone, .inl hfile, hrest⟩
        · refine .inr ⟨?_, .inr hmem, hrest⟩
          -- An old entry would still be there.
          refine Option.eq_none_iff_forall_ne_some.mpr fun old hold => ?_
          rw [(hfirst old).mpr (.inl hold)] at hnone
          cases hnone
      · rintro (hold | ⟨hnone, hfile | hmem, hne, hproof⟩)
        · exact .inl (.inl hold)
        · exact .inl (.inr ⟨hnone, hfile, hne, hproof⟩)
        · cases hnext : next[file]? with
          | none => exact .inr ⟨rfl, hmem, hne, hproof⟩
          | some found =>
              obtain hold | ⟨-, hfile, -⟩ := (hfirst found).mp hnext
              · rw [hnone] at hold
                cases hold
              · exact .inl (.inr ⟨hnone, hfile, hne, hproof⟩)

/-- Where no names are asked for, no test is searched for their use, and the search cannot fail. -/
theorem exists_prove_nil (tree : FileTree) (test changed : Path) :
    ∃ found, prove tree test changed [] = .ok found := by
  unfold prove
  cases tree.read test with
  | error cause => exact ⟨none, rfl⟩
  | ok source =>
      dsimp only
      cases importEvidence tree test changed (ModuleReference.extract source) with
      | resolved => exact ⟨some .importsFile, rfl⟩
      | named named =>
          cases named with
          | nil => exact ⟨none, rfl⟩
          | cons first rest => exact ⟨some .importsFile, rfl⟩

theorem exists_addTest_nil (tree : FileTree) (changed : Path) (affected : Std.ExtTreeMap Path Evidence)
    (test : Path) : ∃ affected', addTest tree changed [] affected test = .ok affected' := by
  unfold addTest
  split_ifs
  · exact ⟨affected, rfl⟩
  · obtain ⟨found, hfound⟩ := exists_prove_nil tree test changed
    rw [hfound]
    cases found with
    | none => exact ⟨affected, rfl⟩
    | some evidence => exact ⟨affected.insert test evidence, rfl⟩

theorem exists_affectedTests_nil (tree : FileTree) (graph : ImportGraph) (settings : Settings)
    (changed : Path) (dependents : List Dependent) :
    ∃ tests, affectedTests tree graph settings changed [] dependents = .ok tests := by
  have hrun (files : List Path) (affected : Std.ExtTreeMap Path Evidence) :
      ∃ affected', files.foldlM (addTest tree changed []) affected = .ok affected' := by
    induction files generalizing affected with
    | nil => exact ⟨affected, rfl⟩
    | cons first rest ih =>
        obtain ⟨next, hnext⟩ := exists_addTest_nil tree changed affected first
        rw [List.foldlM_cons, hnext]
        exact ih next
  obtain ⟨affected, hrun⟩ := hrun (graph.tests settings) (dependentTests dependents)
  unfold affectedTests
  rw [hrun]
  exact ⟨_, rfl⟩

theorem mem_map_toList : (⟨test, evidence⟩ : AffectedTest) ∈
    affected.toList.map (fun (path, evidence) => (⟨path, evidence⟩ : AffectedTest)) ↔
      affected[test]? = some evidence := by
  rw [← Std.ExtTreeMap.mem_toList_iff_getElem?_eq_some, List.mem_map]
  simp

/-- A test is said to import the changed file just when it is a test of the project that is not tied to the
file as a dependent, and either imports the file or, where no names are asked for, only names it. -/
theorem mem_affectedTests_importsFile_iff
    (h : affectedTests tree graph settings changed names dependents = .ok tests) (test : Path) :
    ⟨test, .importsFile⟩ ∈ tests ↔
      test ∈ graph.tests settings ∧ test ≠ changed ∧ (∀ d ∈ dependents, d.isTest = true → d.path ≠ test) ∧
        ∃ source, tree.read test = .ok source ∧
          ((∃ reference ∈ ModuleReference.extract source, ResolvesTo tree test changed reference) ∨
            names = [] ∧ ∃ reference ∈ ModuleReference.extract source,
              OnlyNames tree test changed reference) := by
  obtain ⟨affected, hrun, h⟩ := bind_eq_ok_iff.mp h
  cases h
  rw [mem_map_toList, getElem?_foldlM_addTest hrun, prove_eq_importsFile_iff, getElem?_dependentTests]
  split_ifs with hdependent
  · obtain ⟨d, hd, htest, hpath⟩ := hdependent
    refine iff_of_false (by simp) ?_
    rintro ⟨-, -, hnone, -⟩
    exact hnone d hd htest hpath
  · have hnone : ∀ d ∈ dependents, d.isTest = true → d.path ≠ test :=
      fun d hd htest hpath => hdependent ⟨d, hd, htest, hpath⟩
    simp only [false_or, true_and]
    exact and_congr_right fun _ => and_congr_right fun _ => (and_iff_right hnone).symm

/-- A test that imports a module with the name of the changed file, and not that file. -/
theorem mem_affectedTests_importsFile_of_name :
    let tree := FileTree.ofTexts [("/p/src/math.ts", "export const one = 1;\n"),
      ("/p/test/a.test.ts", "import { one } from 'lib/math';\n")]
    let changed := Path.ofString "/p/src/math.ts"
    let test := Path.ofString "/p/test/a.test.ts"
    ∃ graph tests, ImportGraph.build? tree {} (.ofString "/p") = some graph ∧
      graph.affectedTests tree {} changed [] (graph.dependents {} changed []) = .ok tests ∧
      ⟨test, .importsFile⟩ ∈ tests ∧
      ∀ source, tree.read test = .ok source →
        ¬∃ reference ∈ ModuleReference.extract source, ResolvesTo tree test changed reference := by
  intro tree changed test
  have hsome : (ImportGraph.build? tree {} (.ofString "/p")).isSome = true := by decide +kernel
  let graph := (ImportGraph.build? tree {} (.ofString "/p")).getD {}
  have hg : ImportGraph.build? tree {} (.ofString "/p") = some graph := by
    rw [← Option.some_get hsome, Option.get_eq_getD]
  have hread : tree.read test = .ok "import { one } from 'lib/math';\n" :=
    FileTree.read_eq_ok_iff.mpr (by decide +kernel)
  have hextract : ModuleReference.extract "import { one } from 'lib/math';\n" =
      [.static "lib/math" 1 false false [⟨"one", "one"⟩]] := by decide +kernel
  obtain ⟨tests, htests⟩ :=
    exists_affectedTests_nil tree graph {} changed (graph.dependents {} changed [])
  refine ⟨graph, tests, hg, htests, ?_, ?_⟩
  · have hnames : OnlyNames tree test changed (.static "lib/math" 1 false false [⟨"one", "one"⟩]) :=
      ⟨by decide +kernel, namesTarget_iff.mpr (by decide +kernel)⟩
    rw [mem_affectedTests_importsFile_iff htests]
    refine ⟨by decide +kernel, by decide +kernel, by decide +kernel, _, hread, .inr ⟨rfl, _, ?_, hnames⟩⟩
    rw [hextract]
    exact List.mem_cons_self
  · intro source hsource
    obtain rfl := Except.ok.inj (hread.symm.trans hsource)
    rw [hextract]
    rintro ⟨reference, hm, hrel, -⟩
    obtain rfl := List.mem_singleton.mp hm
    exact absurd hrel (by decide +kernel)

end ApiImpact.ImportGraph
