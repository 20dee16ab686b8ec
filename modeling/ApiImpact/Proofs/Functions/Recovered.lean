import ApiImpact.Proofs.Functions.Declared

/-!
# Functions recovered from their script

Behind its first letter a function holds no word by which another pattern finds an export, whatever its body declares. So all
that a script of functions shows is what the pass over the declarations takes in.
-/

namespace ApiImpact.Exported

open Text Text.Pattern Script Program

variable {pattern : Pattern} {f : Function} {functions : List Function} {before rest : List Char} {c : Char}

/-! ## Quiet functions -/

theorem Identifier.quiet (identifier : Identifier) (h : c ∈ ['(', ')', ',']) : Quiet (identifier.chars ++ [c]) := by
  have hsigns : ∀ c ∈ ['(', ')', ','], Script.isNameChar c = false ∧ Text.isBlank c = false ∧ c ∉ ['.', '\x7b', '*'] := by decide
  obtain ⟨hname, hblank, hc⟩ := hsigns c h
  exact @quiet_word_append _ _ [] identifier.isNameChar (by simp) hname hblank hc

theorem Param.quiet (param : Param) (h : c ∈ ['(', ')', ',']) : Quiet (param.chars ++ [c]) := by
  cases param with
  | plain name => exact name.quiet h
  | withDefault name value =>
      have hletters : ∀ d ∈ numberChars, d ∉ ['p', 'm', 'j'] := by decide
      have hsigns : ∀ c ∈ ['(', ')', ','], Script.isNameChar c = false := by decide
      have hname : Quiet (name.chars ++ " =".toList) := quiet_word_append name.isNameChar (by decide : ∀ d ∈ [' '], _) (by decide)
        (by decide) (by decide)
      have hvalue : Quiet (' ' :: value.chars ++ [c]) :=
        quiet_of_letters (List.forall_mem_cons.mpr ⟨by decide, fun d hd => hletters d (value.mem d hd)⟩) (hsigns c h)
      have hall := hname.append hvalue
      simpa [chars] using hall
  | rest name =>
      have hdots : Quiet "...".toList := quiet_of_forall (by decide)
      have hall := hdots.append (name.quiet h)
      simpa [chars] using hall

namespace Function

theorem quiet_list (f : Function) : Quiet (f.list ++ [')']) := by
  cases hparams : f.params with
  | nil =>
      have hlist : f.list = [] := by simp [list, hparams]
      rw [hlist]
      exact quiet_of_forall (by decide)
  | cons param params =>
      rw [list_cons hparams, List.append_assoc]
      refine quiet_commaed (fun param c hc => param.quiet ?_) param params
      rcases hc with rfl | rfl <;> decide

/-- Behind its first letter a function holds nothing by which exports are found. -/
theorem exists_quiet (f : Function) : ∃ tail, f.code = 'e' :: tail ∧ Quiet tail := by
  obtain ⟨tail, htail, hexport⟩ := exists_quiet_exportWords f.isDefault
  have hfunction : Quiet ("function".toList ++ [' ']) := quiet_keyword (by decide)
  have hname : Quiet (f.name.chars ++ ['(']) := f.name.quiet (by decide)
  have hopening : Quiet " \x7b".toList := quiet_of_forall (by decide)
  have hbody : Quiet (f.body.chars ++ ['\x7d']) := quiet_closed f.body.no_export
  have hbreak : Quiet ['\n'] := quiet_of_forall (by decide)
  refine ⟨_, ?_, hexport.append ((quiet_asyncWord f.isAsync).append (hfunction.append (hname.append (f.quiet_list.append
    (hopening.append (hbody.append hbreak))))))⟩
  rw [code, head, htail, Function.tail, opening]
  simp

/-- The letter behind the word `export`. -/
def sign (f : Function) : Char :=
  if f.isDefault then 'd' else if f.isAsync then 'a' else 'f'

theorem exists_tail (f : Function) : ∃ tail, f.code = "export ".toList ++ f.sign :: tail := by
  rw [code, head, sign]
  cases f.isDefault <;> cases f.isAsync <;> exact ⟨_, rfl⟩

/-- The patterns for exports find no function but the default export. -/
theorem findsIn_nil (f : Function) (hpattern : pattern ∈ exportPatterns) (hdefault : pattern = exportDefaultPattern → f.isDefault = false)
    (before rest : List Char) : FindsIn pattern before f.code rest [] := by
  have hblank : Text.isBlank f.sign = false ∧ f.sign ∉ ['\x7b', '*'] ∧ (f.isDefault = false → f.sign ≠ 'd') := by
    rw [sign]
    cases f.isDefault <;> cases f.isAsync <;> decide
  obtain ⟨tail, hcode⟩ := f.exists_tail
  have hsigned {sign : Char} (hsign : (pattern, sign) ∈ signedPatterns) (hne : f.sign ≠ sign) :
      pattern.matchAt? (.between before (f.code ++ rest)) = none := by
    rw [hcode, List.append_assoc]
    exact matchAt?_eq_none_of_ne hsign hne hblank.1
  have hnone : pattern.matchAt? (.between before (f.code ++ rest)) = none := by
    rcases mem_exportPatterns hpattern with ⟨follower, hfollowed⟩ | hassigned
    · simp only [followedPatterns, List.mem_cons, Prod.mk.injEq, List.not_mem_nil, or_false] at hfollowed
      rcases hfollowed with ⟨rfl, -⟩ | ⟨rfl, -⟩ | ⟨rfl, -⟩
      · exact hsigned (by simp [signedPatterns] : (exportDefaultPattern, 'd') ∈ _) (hblank.2.2 (hdefault rfl))
      · exact hsigned (by simp [signedPatterns] : (exportClausePattern, '\x7b') ∈ _) fun h => hblank.2.1 (by simp [h])
      · exact hsigned (by simp [signedPatterns] : (exportStarPattern, '*') ∈ _) fun h => hblank.2.1 (by simp [h])
    · refine matchAt?_eq_none_iff.mpr fun piece after groups he => ?_
      rw [hcode, List.append_assoc] at he
      exact not_fits_assigned hassigned he
  obtain ⟨quiet, hquiet, htail⟩ := f.exists_quiet
  rw [hquiet] at hnone ⊢
  exact findsIn_of_quiet hpattern htail hnone

end Function

theorem findAll_eq_nil (hpattern : pattern ∈ exportPatterns)
    (hdefault : pattern = exportDefaultPattern → ∀ f ∈ functions, f.isDefault = false) : pattern.findAll (code functions) = [] := by
  have hall : ∀ before, pattern.findAllFrom (.between before (code functions)) = [] := by
    induction functions with
    | nil => exact fun before => findAllFrom_of_none_nil (matchAt?_nil hpattern before)
    | cons f functions ih =>
        intro before
        have hfound := f.findsIn_nil hpattern (fun h => hdefault h f List.mem_cons_self) before (code functions)
        rw [code_cons, hfound, List.nil_append]
        exact ih (fun h g hg => hdefault h g (List.mem_cons_of_mem _ hg)) _
  exact hall []

/-- The patterns that find other exports than declarations and defaults. -/
def otherPatterns : List Pattern :=
  [exportClausePattern, exportStarPattern, moduleExportsPattern, exportsPropertyPattern, definePropertyPattern]

theorem findAll_other (h : pattern ∈ otherPatterns) : pattern.findAll (code functions) = [] := by
  have hne : pattern ≠ exportDefaultPattern := by
    intro heq
    simp only [otherPatterns, List.mem_cons, List.not_mem_nil, or_false] at h
    rcases h with rfl | rfl | rfl | rfl | rfl <;> cases heq
  exact findAll_eq_nil (List.mem_cons_of_mem _ h) fun heq => absurd heq hne

/-! ## All passes -/

theorem Recovers.hasDefault {found : Snapshot} (h : Recovers found functions) (hmem : f ∈ functions) (hf : f.isDefault = true) :
    found.hasDefault = true := by
  obtain ⟨line, hentry⟩ := exists_mem_numbered Function.entry 1 hmem
  refine List.any_eq_true.mpr ⟨f.entry line, h.exports ▸ hentry, ?_⟩
  rw [Function.entry, if_pos hf]
  rfl

/-- Where the declarations are known the pass over the defaults adds nothing. -/
theorem addDefaultExpressions_eq {surface : Collection} (h : Recovers surface.snapshot functions) :
    (Source.of (code functions)).addDefaultExpressions surface = .ok surface := by
  rw [Source.addDefaultExpressions, source_code]
  by_cases hdefault : ∃ f ∈ functions, f.isDefault = true
  · obtain ⟨f, hmem, hf⟩ := hdefault
    exact foldlM_eq_self fun m _ => addDefaultExpression_of_hasDefault (h.hasDefault hmem hf) m
  · have hnone : exportDefaultPattern.findAll (code functions) = [] := findAll_eq_nil (by simp [exportPatterns]) fun _ f hmem =>
      Bool.eq_false_iff.mpr fun hf => hdefault ⟨f, hmem, hf⟩
    rw [hnone]
    rfl

/-- A script of exported functions with distinct names, of which one at most is the default export, shows these functions in their
order and nothing else, whatever their bodies declare. -/
theorem functions_recovered (filePath : String) (language : Language) (h : AreDistinct functions) :
    ∃ found, extract filePath language (.ofList (code functions)) = .ok found ∧ Recovers found functions := by
  unfold extract
  rw [String.toList_ofList]
  extract_lets s empty
  have hcode : s.code = code functions := source_code functions
  have hempty : Recovers (Collection.mk [] empty).snapshot [] := ⟨rfl, rfl⟩
  obtain ⟨declared, hdeclarations, hrecovers⟩ := succeeds_addDeclarations h hempty
  have hclauses : s.addExportClauses declared = .ok declared := by
    rw [Source.addExportClauses, hcode, findAll_other (by simp [otherPatterns])]
    rfl
  have hstars : s.addExportStars declared = declared := by
    rw [Source.addExportStars, hcode, findAll_other (by simp [otherPatterns])]
    rfl
  have hassigned : s.addModuleExportsAll declared = .ok declared := by
    rw [Source.addModuleExportsAll, hcode, findAll_other (by simp [otherPatterns])]
    rfl
  have hproperties : s.addExportsProperties declared = .ok declared := by
    rw [Source.addExportsProperties, hcode, findAll_other (by simp [otherPatterns])]
    rfl
  have hdefined : s.addDefinedProperties declared = declared := by
    rw [Source.addDefinedProperties, hcode, findAll_other (by simp [otherPatterns])]
    rfl
  rw [bind_eq_of_ok hdeclarations, bind_eq_of_ok (addDefaultExpressions_eq hrecovers), bind_eq_of_ok hclauses, hstars,
    bind_eq_of_ok hassigned, bind_eq_of_ok hproperties, hdefined]
  exact ⟨_, rfl, hrecovers.symbols, hrecovers.exports⟩

/-- The name `text`, if it is one. -/
def identifierOf (text : String) (h : isWritten text.toList = true) : Identifier := ⟨text.toList, h⟩

/-- The body `text`, if it is one. -/
def bodyOf (text : String) (h : (∀ c ∈ text.toList, c ∉ openingSigns) ∧ ¬ "export".toList <:+: text.toList ∧
    braceDepth text.toList = 0 ∧ ∀ front ∈ text.toList.inits, 0 ≤ braceDepth front) : Body where
  chars := text.toList
  plain := h.1
  no_export := h.2.1
  balanced := h.2.2.1
  nested := fun front hfront => h.2.2.2 front ((List.mem_inits ..).mpr hfront)

/-- Two functions, the first of them with a function and a class inside. -/
def sampleFunctions : List Function := [
  ⟨true, true, identifierOf "run" (by decide), [.plain (identifierOf "path" (by decide)),
    .withDefault (identifierOf "depth" (by decide)) ⟨['1', '0'], by decide, by decide⟩, .rest (identifierOf "others" (by decide))],
    bodyOf "\nfunction inner() \x7b return 1; \x7d\nclass Box \x7b\x7d\n" (by decide +kernel), by decide, by decide⟩,
  ⟨false, false, identifierOf "$exports" (by decide), [], bodyOf "" (by decide), by decide, by decide⟩]

def sampleScript : String :=
  "export default async function run(path, depth = 10, ...others) \x7b\nfunction inner() \x7b return 1; \x7d\n" ++
    "class Box \x7b\x7d\n\x7d\nexport function $exports() \x7b\x7d\n"

/-- The functions are found, and nothing of what the first of them declares inside. -/
theorem functions_recovered_of_nested : ∃ found, extract "m.js" .javaScript sampleScript = .ok found ∧
    found.symbols.map unsigned = [
      { name := "run", qualifiedName := "run", kind := .function, line := 1, column := 0, signature := "", exported := true
        shape := .function { params := [{ name := "path" }, { name := "depth", hasDefault := true }, { name := "others", rest := true }]
                             isAsync := true } },
      { name := "$exports", qualifiedName := "$exports", kind := .function, line := 5, column := 0, signature := "", exported := true
        shape := .function {} }] ∧
    found.exports = [.default 1 .function (some "run") .declarative, .named "$exports" 5 .function .declarative] := by
  have htext : String.ofList (code sampleFunctions) = sampleScript := by decide +kernel
  obtain ⟨found, hfound, hrecovers⟩ := @functions_recovered sampleFunctions "m.js" .javaScript ⟨by decide +kernel, by decide +kernel⟩
  rw [htext] at hfound
  exact ⟨found, hfound, hrecovers.symbols.trans (by decide +kernel), hrecovers.exports.trans (by decide +kernel)⟩

end ApiImpact.Exported
