import ApiImpact.Proofs.Impact.Evidence
import ApiImpact.Proofs.Text.Pattern

/-!
# Tests that only name the changed file

A test may name the changed file in imports that resolve to no file. It counts then if it uses a changed name that one of
these imports binds. A test without types counts as well if it uses a name that is only spelled like a changed one,
wherever the test has that name from.
-/

namespace ApiImpact

open Text

/-! ## Patterns at the beginning of a name -/

namespace Text.Pattern

variable {groups groups' : Groups} {before piece after text : List Char} {p : Char → Bool} {next : Pattern}

/-- A pattern that begins at the start of the text or behind a character of a class. -/
theorem occursIn_start_append_iff : (orElse textStart (one p) ++ next).occursIn text = true ↔
    ∃ before piece after groups', text = before ++ (piece ++ after) ∧ (∀ c ∈ before.getLast?, p c = true) ∧
      next.Fits [] before piece after groups' := by
  rw [occursIn_iff]
  constructor
  · rintro ⟨before, _, after, groups', rfl, x, y, _, rfl, ⟨rfl, rfl, rfl⟩ | ⟨rfl, c, rfl, hc⟩, hnext⟩
    · exact ⟨[], y, after, groups', rfl, nofun, hnext⟩
    · exact ⟨before ++ [c], y, after, groups', by simp, by simpa using hc, hnext⟩
  · rintro ⟨before, piece, after, groups', rfl, hlast, hnext⟩
    rcases List.eq_nil_or_concat before with rfl | ⟨init, c, rfl⟩
    · exact ⟨[], piece, after, groups', rfl, [], piece, [], rfl, .inl ⟨rfl, rfl, rfl⟩, hnext⟩
    · rw [List.concat_eq_append] at hlast hnext
      exact ⟨init, c :: piece, after, groups', by simp, [c], piece, [], rfl,
        .inr ⟨rfl, c, rfl, hlast c (by simp)⟩, hnext⟩

end Text.Pattern

namespace Usage

variable {name : String} {members changed : List String} {code : List Char} {binding : Binding}

/-- The code calls `name` or looks into it, where it is not read as a member itself. -/
def IsUsedIn (name : String) (code : List Char) : Prop :=
  ∃ before blanks sign after, code = before ++ (name.toList ++ (blanks ++ sign :: after)) ∧
    (∀ c ∈ before.getLast?, isNamePart c = false ∧ c ≠ '.') ∧ (∀ c ∈ blanks, isBlank c = true) ∧
      (sign = '(' ∨ sign = '.' ∨ sign = '[')

/-- One of `members` follows with its sign, or a bracket. -/
def IsAccess (members : List String) (rest : List Char) : Prop :=
  rest.head? = some '[' ∨ ∃ gap member more, member ∈ members ∧ rest = '.' :: (gap ++ (member.toList ++ more)) ∧
    (∀ c ∈ gap, isBlank c = true) ∧ ∀ c ∈ more.head?, isNamePart c = false

/-- The code reads one of `members` through `name`, or any member by its index. -/
def IsReadIn (name : String) (members : List String) (code : List Char) : Prop :=
  ∃ before blanks rest, code = before ++ (name.toList ++ (blanks ++ rest)) ∧
    (∀ c ∈ before.getLast?, isNamePart c = false) ∧ (∀ c ∈ blanks, isBlank c = true) ∧ IsAccess members rest

theorem occursIn_nameUse_iff : (nameUse name).occursIn code = true ↔ IsUsedIn name code := by
  rw [Pattern.occursIn_iff]
  simp only [nameUse, Pattern.fits_append_assoc]
  rw [← Pattern.occursIn_iff, Pattern.occursIn_start_append_iff]
  simp only [Pattern.fits_literal_append, Pattern.fits_most_append, Pattern.Fits, Bool.and_eq_true, Bool.or_eq_true,
    Bool.not_eq_true', bne_iff_ne, beq_iff_eq, or_assoc]
  constructor
  · rintro ⟨before, _, after, _, rfl, hbefore, _, rfl, blanks, _, rfl, hblanks, rfl, sign, rfl, hsign⟩
    exact ⟨before, blanks, sign, after, by simp, hbefore, hblanks, hsign⟩
  · rintro ⟨before, blanks, sign, after, rfl, hbefore, hblanks, hsign⟩
    exact ⟨before, name.toList ++ (blanks ++ [sign]), after, [], by simp, hbefore, _, rfl, blanks, [sign], rfl, hblanks,
      rfl, sign, rfl, hsign⟩

/-- Where a name ends, no character of a name follows. -/
theorem exists_fits_nameEnd_iff {groups : Groups} {before rest : List Char} :
    (∃ piece after groups', rest = piece ++ after ∧ nameEnd.Fits groups before piece after groups') ↔
      ∀ c ∈ rest.head?, isNamePart c = false := by
  simp only [nameEnd, Pattern.Fits, Bool.not_eq_true']
  constructor
  · rintro ⟨piece, after, _, rfl, ⟨rfl, c, rfl, hc⟩ | ⟨rfl, rfl, rfl⟩⟩
    · simpa using hc
    · intro c hc
      cases hc
  · intro hhead
    cases rest with
    | nil => exact ⟨[], [], groups, rfl, .inr ⟨rfl, rfl, rfl⟩⟩
    | cons c rest => exact ⟨[c], rest, groups, rfl, .inl ⟨rfl, c, rfl, hhead c rfl⟩⟩

/-- What follows the name of a module where one of `members` is read. -/
def memberAccess (members : List String) : Pattern :=
  .orElse (.char '.' ++ .most isBlank ++ .firstOf (members.map .literal) ++ nameEnd) (.char '[')

theorem exists_fits_memberAccess_iff {groups : Groups} {before rest : List Char} :
    (∃ piece after groups', rest = piece ++ after ∧ (memberAccess members).Fits groups before piece after groups') ↔
      IsAccess members rest := by
  unfold memberAccess
  constructor
  · rintro ⟨piece, after, groups', rfl, hfits | hfits⟩
    · simp only [Pattern.fits_append_assoc, Pattern.fits_char_append, Pattern.fits_most_append] at hfits
      obtain ⟨_, rfl, gap, _, rfl, hgap, word, ending, _, rfl, hword, hending⟩ := hfits
      obtain ⟨_, hliteral, hword⟩ := Pattern.fits_firstOf.mp hword
      obtain ⟨member, hmember, rfl⟩ := List.mem_map.mp hliteral
      obtain ⟨rfl, rfl⟩ := Pattern.fits_literal.mp hword
      exact .inr ⟨gap, member, ending ++ after, hmember, by simp, hgap,
        exists_fits_nameEnd_iff.mp ⟨ending, after, _, rfl, hending⟩⟩
    · obtain ⟨-, rfl⟩ := Pattern.fits_char.mp hfits
      exact .inl rfl
  · rintro (hbracket | ⟨gap, member, more, hmember, rfl, hgap, hending⟩)
    · cases rest with
      | nil => cases hbracket
      | cons c after =>
          obtain rfl := Option.some.inj hbracket
          exact ⟨['['], after, groups, rfl, .inr (Pattern.fits_char.mpr ⟨rfl, rfl⟩)⟩
    · obtain ⟨ending, after, groups', rfl, hending⟩ := exists_fits_nameEnd_iff.mpr hending
      refine ⟨'.' :: (gap ++ (member.toList ++ ending)), after, groups', by simp, .inl ?_⟩
      simp only [Pattern.fits_append_assoc, Pattern.fits_char_append, Pattern.fits_most_append]
      refine ⟨_, rfl, gap, _, rfl, hgap, member.toList, ending, groups, rfl, ?_, hending⟩
      exact Pattern.fits_firstOf.mpr ⟨_, List.mem_map_of_mem hmember, Pattern.fits_literal.mpr ⟨rfl, rfl⟩⟩

theorem occursIn_memberUse_iff : (memberUse name members).occursIn code = true ↔ IsReadIn name members code := by
  have hpattern : memberUse name members = nameStart ++ .literal name ++ .most isBlank ++ memberAccess members := rfl
  rw [Pattern.occursIn_iff, hpattern]
  simp only [nameStart, Pattern.fits_append_assoc]
  rw [← Pattern.occursIn_iff, Pattern.occursIn_start_append_iff]
  simp only [Pattern.fits_literal_append, Pattern.fits_most_append, Bool.not_eq_true']
  constructor
  · rintro ⟨before, _, after, _, rfl, hbefore, _, rfl, blanks, piece, rfl, hblanks, hfits⟩
    exact ⟨before, blanks, piece ++ after, by simp, hbefore, hblanks,
      exists_fits_memberAccess_iff.mp ⟨piece, after, _, rfl, hfits⟩⟩
  · rintro ⟨before, blanks, rest, rfl, hbefore, hblanks, haccess⟩
    obtain ⟨piece, after, groups', rfl, hfits⟩ := exists_fits_memberAccess_iff.mpr haccess
    exact ⟨before, name.toList ++ (blanks ++ piece), after, groups', by simp, hbefore, _, rfl, blanks, piece, rfl,
      hblanks, hfits⟩

/-! ## Use through a binding, and use of a name alone -/

/-- The code uses the name that is bound. -/
def Binding.IsUsedIn (changed : List String) (code : List Char) : Binding → Prop
  | direct localName => Usage.IsUsedIn localName code
  | whole localName => IsReadIn localName changed code

theorem Binding.occursIn_pattern_iff :
    (binding.pattern changed).occursIn code = true ↔ binding.IsUsedIn changed code := by
  cases binding with
  | direct localName => exact occursIn_nameUse_iff
  | whole localName => exact occursIn_memberUse_iff

/-- The test is written in a typed language. -/
def IsTyped (test : Path) : Prop :=
  ∃ language, Language.ofPath? test = some language ∧ language.isTyped = true

/-- An import of the test among those that name the changed file binds a changed name, or the whole module, and the test
uses what is bound. -/
inductive UsesBinding (test : Path) (source : String) (named : List ModuleReference) (changed : List String) : Prop where
  | inSyntax {language : Language} {snapshot : Snapshot} {name : ImportedName} {binding : Binding}
      {reference : TypeScript.Reference} :
      Language.ofPath? test = some language → language.isTyped = true →
      Snapshot.capture {} (Path.slashed test.toString) source none = .ok snapshot → name ∈ boundNames named snapshot →
      bindingOf? changed name = some binding → reference ∈ TypeScript.references source language →
      binding.isUsedBy changed reference = true → UsesBinding test source named changed
  | inText {reference : ModuleReference} {name : ImportedName} {binding : Binding} :
      ¬ IsTyped test → reference ∈ named → name ∈ reference.names → bindingOf? changed name = some binding →
      binding.IsUsedIn changed (codeOnly source.toList) → UsesBinding test source named changed

/-- A test without types that names the changed file uses a name that is spelled like a changed one. -/
structure UsesSpelling (test : Path) (source : String) (named : List ModuleReference) (changed : List String) :
    Prop where
  untyped : ¬ IsTyped test
  named : named ≠ []
  used : ∃ name ∈ changed, name ≠ "default" ∧ IsUsedIn name (codeOnly source.toList)

variable {test : Path} {source : String} {named : List ModuleReference}

theorem exists_mem_bindings_iff {names : List ImportedName} {P : Binding → Prop} :
    (∃ binding ∈ bindings changed names, P binding) ↔
      ∃ name ∈ names, ∃ binding, bindingOf? changed name = some binding ∧ P binding := by
  simp only [bindings, List.mem_filterMap]
  constructor
  · rintro ⟨binding, ⟨name, hname, hbinding⟩, hused⟩
    exact ⟨name, hname, binding, hbinding, hused⟩
  · rintro ⟨name, hname, binding, hbinding, hused⟩
    exact ⟨binding, ⟨name, hname, hbinding⟩, hused⟩

theorem inText_iff : inText source named changed = true ↔
    (∃ name ∈ changed, name ≠ "default" ∧ IsUsedIn name (codeOnly source.toList)) ∨
      ∃ reference ∈ named, ∃ name ∈ reference.names, ∃ binding, bindingOf? changed name = some binding ∧
        binding.IsUsedIn changed (codeOnly source.toList) := by
  rw [inText, List.any_append, Bool.or_eq_true, List.any_map, List.any_filter, List.any_flatMap]
  refine or_congr ?_ ?_
  · simp [occursIn_nameUse_iff]
  · simp only [List.any_eq_true, List.any_map, Function.comp_apply, Binding.occursIn_pattern_iff,
      exists_mem_bindings_iff]

theorem inSyntax_eq_ok_true_iff {language : Language} : inSyntax test language source named changed = .ok true ↔
    ∃ snapshot, Snapshot.capture {} (Path.slashed test.toString) source none = .ok snapshot ∧
      ∃ name ∈ boundNames named snapshot, ∃ binding, bindingOf? changed name = some binding ∧
        ∃ reference ∈ TypeScript.references source language, binding.isUsedBy changed reference = true := by
  rw [inSyntax, bind_eq_ok_iff]
  refine exists_congr fun snapshot => and_congr_right fun _ => ?_
  change Except.ok _ = Except.ok true ↔ _
  rw [Except.ok.injEq, List.any_eq_true]
  simp only [List.any_eq_true, exists_mem_bindings_iff]

end Usage

namespace ImportGraph

open Usage

variable {tree : FileTree} {graph : ImportGraph} {settings : Settings} {changed test : Path} {names : List String}
  {dependents : List Dependent} {tests : List AffectedTest} {named : List ModuleReference} {source : String}

theorem exists_pure_ite_eq_iff {shown : Bool} {kind : Evidence} :
    (∃ evidence, (pure (if shown then some kind else none) : Except Script.InsideCharacter (Option Evidence)) =
      .ok (some evidence)) ↔ shown = true := by
  cases shown <;> simp [pure, Except.pure]

/-- A test that names the changed file shows the use of a name by a binding or by its spelling. -/
theorem exists_usageEvidence_iff (hne : named ≠ []) :
    (∃ evidence, usageEvidence test source named names = .ok (some evidence)) ↔
      UsesBinding test source named names ∨ UsesSpelling test source named names := by
  unfold usageEvidence
  cases hlanguage : (Language.ofPath? test).filter (·.isTyped) with
  | some language =>
      obtain ⟨hpath, htyped⟩ := Option.filter_eq_some_iff.mp hlanguage
      have hlang : IsTyped test := ⟨language, hpath, htyped⟩
      simp only [bind_eq_ok_iff]
      rw [exists_comm]
      simp only [exists_and_left, exists_pure_ite_eq_iff, exists_eq_right, inSyntax_eq_ok_true_iff]
      constructor
      · rintro ⟨snapshot, hcapture, name, hname, binding, hbinding, reference, hreference, hused⟩
        exact .inl (.inSyntax hpath htyped hcapture hname hbinding hreference hused)
      · rintro ((⟨hpath', -, hcapture, hname, hbinding, hreference, hused⟩ | ⟨huntyped, -⟩) | ⟨huntyped, -⟩)
        · obtain rfl := Option.some.inj (hpath.symm.trans hpath')
          exact ⟨_, hcapture, _, hname, _, hbinding, _, hreference, hused⟩
        · exact absurd hlang huntyped
        · exact absurd hlang huntyped
  | none =>
      have hlang : ¬ IsTyped test := by
        rintro ⟨language, hpath, htyped⟩
        rw [hpath, Option.filter_some, if_pos htyped] at hlanguage
        cases hlanguage
      simp only [exists_pure_ite_eq_iff, inText_iff]
      constructor
      · rintro (hused | ⟨reference, hreference, name, hname, binding, hbinding, hused⟩)
        · exact .inr ⟨hlang, hne, hused⟩
        · exact .inl (.inText hlang hreference hname hbinding hused)
      · rintro ((⟨hpath, htyped, -⟩ | ⟨-, hreference, hname, hbinding, hused⟩) | ⟨-, -, hused⟩)
        · exact absurd ⟨_, hpath, htyped⟩ hlang
        · exact .inr ⟨_, hreference, _, hname, _, hbinding, hused⟩
        · exact .inl hused

/-! ## The search succeeds -/

/-- The snapshot of a typed file can always be taken. -/
theorem exists_capture_of_isTyped {filePath : String} (h : IsTyped (.ofString filePath)) (settings : Settings)
    (source : String) (manifest : Option String) :
    ∃ snapshot, Snapshot.capture settings filePath source manifest = .ok snapshot := by
  obtain ⟨language, hpath, htyped⟩ := h
  obtain ⟨surface, hsurface⟩ : ∃ surface, Snapshot.surfaceOf settings filePath source language = .ok surface := by
    unfold Snapshot.surfaceOf
    rw [if_pos htyped]
    split_ifs
    · exact ⟨_, rfl⟩
    · exact ⟨_, rfl⟩
  unfold Snapshot.capture
  rw [hpath]
  exact ⟨_, bind_eq_ok_iff.mpr ⟨surface, hsurface, rfl⟩⟩

theorem exists_usageEvidence (h : IsTyped test → IsTyped (.ofString (Path.slashed test.toString))) (source : String)
    (named : List ModuleReference) (names : List String) :
    ∃ found, usageEvidence test source named names = .ok found := by
  unfold usageEvidence
  cases hlanguage : (Language.ofPath? test).filter (·.isTyped) with
  | none => exact ⟨_, rfl⟩
  | some language =>
      obtain ⟨hpath, htyped⟩ := Option.filter_eq_some_iff.mp hlanguage
      obtain ⟨snapshot, hcapture⟩ := exists_capture_of_isTyped (h ⟨language, hpath, htyped⟩) {} source none
      simp only [inSyntax, hcapture]
      exact ⟨_, rfl⟩

theorem exists_prove (h : IsTyped test → IsTyped (.ofString (Path.slashed test.toString))) (tree : FileTree)
    (changed : Path) (names : List String) : ∃ found, prove tree test changed names = .ok found := by
  unfold prove
  cases hread : tree.read test with
  | error cause => exact ⟨none, rfl⟩
  | ok source =>
      dsimp only
      split
      · exact ⟨_, rfl⟩
      · exact ⟨_, rfl⟩
      · split_ifs
        · exact ⟨_, rfl⟩
        · exact exists_usageEvidence h source _ names

/-- The search for affected tests succeeds if the typed tests are typed by the paths under which their snapshots are
taken. -/
theorem exists_affectedTests
    (h : ∀ test ∈ graph.tests settings, IsTyped test → IsTyped (.ofString (Path.slashed test.toString)))
    (tree : FileTree) (changed : Path) (names : List String) (dependents : List Dependent) :
    ∃ tests, affectedTests tree graph settings changed names dependents = .ok tests := by
  have hrun : Succeeds (fun _ => True)
      ((graph.tests settings).foldlM (addTest tree changed names) (dependentTests dependents)) := by
    refine succeeds_foldlM (fun test htest affected _ => ?_) trivial
    unfold addTest
    split_ifs
    · exact succeeds_pure trivial
    · obtain ⟨found, hfound⟩ := exists_prove (h test htest) tree changed names
      rw [hfound]
      cases found <;> exact succeeds_pure trivial
  obtain ⟨affected, hrun, -⟩ := hrun
  unfold affectedTests
  rw [hrun]
  exact ⟨_, rfl⟩

/-! ## Affected tests -/

theorem not_usesBinding_nil : ¬ UsesBinding test source [] names := by
  rintro (⟨-, -, -, hname, -⟩ | ⟨-, hreference, -⟩)
  · simp [boundNames] at hname
  · cases hreference

theorem exists_prove_iff (hnames : names ≠ []) (hresolved : ∀ source, tree.read test = .ok source →
      ¬ ∃ reference ∈ ModuleReference.extract source, ResolvesTo tree test changed reference) :
    (∃ evidence, prove tree test changed names = .ok (some evidence)) ↔ ∃ source, tree.read test = .ok source ∧
      let named := (ModuleReference.extract source).filter fun reference => OnlyNames tree test changed reference
      UsesBinding test source named names ∨ UsesSpelling test source named names := by
  unfold prove
  cases hread : tree.read test with
  | error cause => simp
  | ok source =>
      simp only [Except.ok.injEq, exists_eq_left']
      cases hevidence : importEvidence tree test changed (ModuleReference.extract source) with
      | resolved => exact absurd (importEvidence_eq_resolved_iff.mp hevidence) (hresolved source hread)
      | named named =>
          rw [← eq_filter_of_importEvidence named hevidence]
          cases named with
          | nil =>
              refine iff_of_false nofun ?_
              rintro (hbinding | hspelling)
              · exact not_usesBinding_nil hbinding
              · exact hspelling.named rfl
          | cons first rest =>
              rw [← exists_usageEvidence_iff (List.cons_ne_nil first rest)]
              simp only [List.isEmpty_iff, hnames, if_false]

/-- Of the tests that are no dependents and import the changed file nowhere, those are affected that name it in an import
and use a changed name: by a binding of such an import, or, without types, by its spelling alone. -/
theorem exists_mem_affectedTests_iff (h : affectedTests tree graph settings changed names dependents = .ok tests)
    (hnames : names ≠ []) (hdependent : ∀ d ∈ dependents, d.isTest = true → d.path ≠ test)
    (hresolved : ∀ source, tree.read test = .ok source →
      ¬ ∃ reference ∈ ModuleReference.extract source, ResolvesTo tree test changed reference) :
    (∃ evidence, ⟨test, evidence⟩ ∈ tests) ↔ test ∈ graph.tests settings ∧ test ≠ changed ∧
      ∃ source, tree.read test = .ok source ∧
        let named := (ModuleReference.extract source).filter fun reference => OnlyNames tree test changed reference
        UsesBinding test source named names ∨ UsesSpelling test source named names := by
  obtain ⟨affected, hrun, h⟩ := bind_eq_ok_iff.mp h
  cases h
  have hnone : ¬ ∃ d ∈ dependents, d.isTest = true ∧ d.path = test :=
    fun ⟨d, hd, htest, hpath⟩ => hdependent d hd htest hpath
  rw [← exists_prove_iff hnames hresolved]
  simp only [mem_map_toList, getElem?_foldlM_addTest hrun, getElem?_dependentTests, if_neg hnone, reduceCtorEq, false_or,
    true_and, exists_and_left]

/-- A test that imports another export calls a function of its own, which is spelled like the changed one. -/
theorem exists_mem_affectedTests_of_spelling :
    let text := "import { other } from '@app/lib/foo';\nfunction foo(value) {}\nfoo(other);\n"
    let tree := FileTree.ofTexts [("/p/src/lib/foo.js", "export function foo() {}\nexport function other() {}\n"),
      ("/p/test/a.test.js", text)]
    let changed := Path.ofString "/p/src/lib/foo.js"
    let test := Path.ofString "/p/test/a.test.js"
    ∃ graph tests, ImportGraph.build? tree {} (.ofString "/p") = some graph ∧
      graph.affectedTests tree {} changed ["foo"] (graph.dependents {} changed ["foo"]) = .ok tests ∧
      tree.read test = .ok text ∧ (¬ ∃ reference ∈ ModuleReference.extract text, ResolvesTo tree test changed reference) ∧
      ¬ UsesBinding test text (ModuleReference.extract text) ["foo"] ∧ ∃ evidence, ⟨test, evidence⟩ ∈ tests := by
  intro text tree changed test
  have hsome : (ImportGraph.build? tree {} (.ofString "/p")).isSome = true := by decide +kernel
  let graph := (ImportGraph.build? tree {} (.ofString "/p")).getD {}
  have hg : ImportGraph.build? tree {} (.ofString "/p") = some graph := by
    rw [← Option.some_get hsome, Option.get_eq_getD]
  have hread : tree.read test = .ok text := FileTree.read_eq_ok_iff.mpr (by decide +kernel)
  have hextract : ModuleReference.extract text = [.static "@app/lib/foo" 1 false false [⟨"other", "other"⟩]] := by
    decide +kernel
  have huntyped : ¬ IsTyped test := by
    rintro ⟨language, hpath, htyped⟩
    have hlanguage : (Language.ofPath? test).all (!·.isTyped) = true := by decide +kernel
    rw [hpath, Option.all_some, htyped] at hlanguage
    cases hlanguage
  have htest : graph.tests {} = [test] := by decide +kernel
  obtain ⟨tests, htests⟩ : ∃ tests,
      graph.affectedTests tree {} changed ["foo"] (graph.dependents {} changed ["foo"]) = .ok tests := by
    refine exists_affectedTests (fun file hfile htyped => ?_) _ _ _ _
    rw [htest, List.mem_singleton] at hfile
    exact absurd (hfile ▸ htyped) huntyped
  have hresolved : ¬ ∃ reference ∈ ModuleReference.extract text, ResolvesTo tree test changed reference := by
    rw [hextract]
    rintro ⟨reference, hm, hrel, -⟩
    obtain rfl := List.mem_singleton.mp hm
    exact absurd hrel (by decide +kernel)
  have hnames : OnlyNames tree test changed (.static "@app/lib/foo" 1 false false [⟨"other", "other"⟩]) :=
    ⟨by decide +kernel, namesTarget_iff.mpr (by decide +kernel)⟩
  have hspelling : UsesSpelling test text
      ((ModuleReference.extract text).filter fun reference => OnlyNames tree test changed reference) ["foo"] := by
    refine ⟨huntyped, ?_, "foo", by simp, by decide, occursIn_nameUse_iff.mp (by decide +kernel)⟩
    rw [hextract, List.filter_cons_of_pos (by simpa using hnames)]
    exact List.cons_ne_nil _ _
  refine ⟨graph, tests, hg, htests, hread, hresolved, ?_, ?_⟩
  · rw [hextract]
    rintro (⟨hpath, htyped, -⟩ | ⟨-, hreference, hname, hbinding, -⟩)
    · exact huntyped ⟨_, hpath, htyped⟩
    · obtain rfl := List.mem_singleton.mp hreference
      obtain rfl := List.mem_singleton.mp hname
      cases hbinding
  · rw [exists_mem_affectedTests_iff htests (List.cons_ne_nil _ _) (by decide +kernel)
      fun source hsource => Except.ok.inj (hread.symm.trans hsource) ▸ hresolved]
    exact ⟨htest ▸ List.mem_singleton_self test, by decide +kernel, text, hread, .inr hspelling⟩

end ImportGraph

end ApiImpact
