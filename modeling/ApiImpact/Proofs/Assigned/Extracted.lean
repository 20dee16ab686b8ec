import ApiImpact.Proofs.Assigned.Exported

/-!
# What a script shows that assigns an object

Of all passes over the script only the one over the assignments takes something in, once: before the object no other word is
found, and the lines inside of it begin no declaration at top level. What is exported inside the object would be found as well.
-/

namespace ApiImpact.Assigned.Assignment

open Text Text.Pattern Lexical Script Script.Source

variable {assignment : Assignment} {pattern : Pattern} {rest before after : List Char} {surface : Collection}

/-- Nothing else is exported: behind the head no export is found. -/
def IsAlone (assignment : Assignment) : Prop :=
  ∀ pattern ∈ exportPatterns, pattern.findAllFrom (.between headChars assignment.object) = []

/-! ## The head -/

theorem quiet_module : Quiet "odule.".toList := by
  intro pattern hpattern before front back after hsplit hne
  refine matchAt?_eq_none_of_signal hpattern fun word sign more hahead hsignal => ?_
  cases front using List.reverseRecOn with
  | nil =>
      obtain ⟨c, letters, rfl, hc⟩ := hsignal.head
      rw [List.nil_append] at hsplit
      rw [← hsplit] at hahead
      obtain rfl : 'o' = c := (List.cons.inj hahead).1
      exact absurd hc (by decide)
  | append_singleton front d =>
      have hletters : ∀ d ∈ "odule.".toList.dropLast, isWordChar d = true := by decide
      have hlast : "odule.".toList.dropLast = front ++ d :: back.dropLast := by
        rw [hsplit, List.append_assoc, List.singleton_append, List.dropLast_append_of_ne_nil (List.cons_ne_nil d back),
          List.dropLast_cons_of_ne_nil hne]
      exact ⟨d, by rw [← List.append_assoc, List.getLast?_concat]; rfl, hletters d (hlast ▸ by simp)⟩

/-- Behind its first letter no export is found in the head. -/
theorem quiet_head : Quiet "odule.exports = ".toList := by
  have hexports : Quiet ("exports".toList ++ ([' '] ++ ['='])) := quiet_word_append (by decide) (by decide) (by decide) (by decide) (by decide)
  exact quiet_module.append (hexports.append (quiet_of_forall (by decide)))

theorem matchAt?_head (hpattern : pattern ∈ exportPatterns) (hne : pattern ≠ moduleExportsPattern) :
    pattern.matchAt? (.between [] (headChars ++ '\x7b' :: rest)) = none := by
  simp only [exportPatterns, List.mem_cons, List.not_mem_nil, or_false] at hpattern
  rcases hpattern with rfl | rfl | rfl | rfl | rfl | rfl
  · rfl
  · rfl
  · rfl
  · exact absurd rfl hne
  · rfl
  · rfl

/-- Where nothing else is exported only the assignment is found. -/
theorem IsAlone.findAll_eq_nil (h : assignment.IsAlone) (hpattern : pattern ∈ exportPatterns) (hne : pattern ≠ moduleExportsPattern) :
    pattern.findAll assignment.source.code = [] := by
  rw [assignment.code_source]
  have hskip : pattern.findAllFrom (.between [] (headChars ++ assignment.object)) =
      pattern.findAllFrom (.between headChars assignment.object) :=
    Program.findsIn_of_quiet hpattern quiet_head (matchAt?_head hpattern hne)
  exact hskip.trans (h pattern hpattern)

/-- The match of the assignment. -/
def headMatch : Match := ⟨⟨0, 17⟩, [(1, ⟨16, 17⟩)]⟩

theorem IsAlone.findAll_moduleExports (h : assignment.IsAlone) : moduleExportsPattern.findAll assignment.source.code = [headMatch] := by
  have hmatch : moduleExportsPattern.matchAt? (.between [] (headChars ++ assignment.object)) =
      some (headMatch, .between ([] ++ headChars) assignment.object) := rfl
  have hfound := findAllFrom_of_some (by decide) hmatch
  rw [assignment.code_source]
  exact hfound.trans (congrArg (headMatch :: ·) (h moduleExportsPattern (by simp [exportPatterns])))

/-- Nothing else is exported where the word for it does not stand in the object. -/
theorem isAlone_of_no_export (h : ¬ "export".toList <:+: code (listItems assignment.entries)) : assignment.IsAlone := by
  have htail : ∀ c ∈ ';' :: code assignment.ending.items, c ∉ ['e', 'm', 'O'] := by
    have hletters : ∀ c ∈ ['e', 'm', 'O'], isBlank c = false := by decide
    refine List.forall_mem_cons.mpr ⟨by decide, fun c hc hmem => ?_⟩
    have hblank := assignment.ending.isBlank c hc
    rw [hletters c hmem] at hblank
    cases hblank
  have hquiet : Quiet assignment.object := by
    have hopening : Quiet ['\x7b'] := quiet_of_forall (by decide)
    have hall := hopening.append ((quiet_closed h).append (quiet_of_forall htail))
    simpa [object] using hall
  intro pattern hpattern
  have hskip := findAllFrom_skip fun front rest hsplit hne => hquiet pattern hpattern headChars front rest [] hsplit hne
  rw [List.append_nil] at hskip
  rw [hskip]
  exact findAllFrom_of_none_nil (Program.matchAt?_nil hpattern _)

/-! ## Declarations -/

/-- What begins a line is no part of the head. -/
theorem not_prefix_head {d : DeclarationWords} (h : assignment.source.code = before ++ (d.chars ++ after))
    (hbegins : ∀ c ∈ before.getLast?, c = '\n') : ¬ before <+: headChars := by
  intro hlead
  have hempty : before = [] := by
    by_contra hne
    have hlast := hbegins _ (List.getLast?_eq_some_getLast hne)
    have hmem : '\n' ∈ headChars := hlead.subset (hlast ▸ List.getLast_mem hne)
    exact absurd hmem (by decide)
  have hwords : ∀ word ∈ "export" :: "async" :: "function" :: plainKeywords, word.toList ≠ [] ∧ ∀ c ∈ word.toList.head?, c ≠ 'm' := by
    decide
  obtain ⟨word, hmem, rest, hword⟩ := d.exists_word
  rw [assignment.code_source, hempty, List.nil_append, hword] at h
  cases hindent : d.indent with
  | nil =>
      obtain ⟨hne, hm⟩ := hwords word hmem
      obtain ⟨c, letters, hletters⟩ := List.exists_cons_of_ne_nil hne
      rw [hindent, hletters] at h
      exact hm c (by rw [hletters]; rfl) (List.cons.inj h).1.symm
  | cons g indent =>
      rw [hindent] at h
      have hgap := d.indent_gap g (hindent ▸ List.mem_cons_self)
      obtain rfl : 'm' = g := (List.cons.inj h).1
      exact absurd hgap (by decide)

/-- A line of the object begins inside of braces. -/
theorem braceDepth_pos {d : DeclarationWords} (h : assignment.source.code = before ++ (d.chars ++ after))
    (hbegins : ∀ c ∈ before.getLast?, c = '\n') : 0 < braceDepth before := by
  have hlead := not_prefix_head h hbegins
  have hcode : assignment.source.code = (headChars ++ '\x7b' :: code (listItems assignment.entries)) ++
      '\x7d' :: ';' :: code assignment.ending.items := by
    rw [assignment.code_source, object]
    simp
  rw [hcode] at h
  rcases List.append_eq_append_iff.mp h with ⟨more, -, htail⟩ | ⟨more, hobject, -⟩
  · -- behind the object nothing is written
    obtain ⟨word, hmem, rest, hword⟩ := d.exists_word
    have hwords : ∀ word ∈ "export" :: "async" :: "function" :: plainKeywords, word.toList ≠ [] ∧
        ∀ c ∈ word.toList, c ∉ ['\x7d', ';'] ∧ isBlank c = false := by decide
    obtain ⟨hne, hletters⟩ := hwords word hmem
    obtain ⟨c, hc⟩ := List.exists_mem_of_ne_nil _ hne
    obtain ⟨hsigns, hblank⟩ := hletters c hc
    have hctail : c ∈ '\x7d' :: ';' :: code assignment.ending.items := by
      rw [htail, hword]
      simp [hc]
    simp only [List.mem_cons, List.not_mem_nil, or_false, not_or] at hsigns
    simp only [List.mem_cons, hsigns, false_or] at hctail
    exact absurd (assignment.ending.isBlank c hctail) (by simp [hblank])
  · rcases List.append_eq_append_iff.mp hobject with ⟨front, rfl, hfront⟩ | ⟨front, hhead, -⟩
    · cases front with
      | nil => exact absurd (List.append_nil headChars ▸ List.prefix_refl headChars) hlead
      | cons c front =>
          obtain ⟨rfl, hlist⟩ := List.cons.inj hfront
          have hnonneg : 0 ≤ excess '\x7b' '\x7d' front :=
            (isBalanced_listItems assignment.entries _ _ rfl).nonneg front ⟨more, hlist.symm⟩
          have hhead : braceDepth headChars = 0 := rfl
          have hopens : braceStep '\x7b' = 1 := rfl
          rw [braceDepth_append, braceDepth_cons, braceDepth_eq_excess front, hhead, hopens]
          omega
    · exact absurd ⟨front, hhead.symm⟩ hlead

theorem lineOf_source (offset : Nat) : assignment.source.lineOf offset = (positionOf assignment.source.code offset).line := by
  rw [source, scriptOf, Source.of, positionOf_codeOnly]
  rfl

/-- No declaration is taken in. -/
theorem addDeclarations_eq (surface : Collection) : assignment.source.addDeclarations surface = .ok surface := by
  rw [Program.addDeclarations_eq]
  refine Program.foldlM_eq_self fun m hm => ?_
  obtain ⟨before, piece, after, hcode, hfits, hspan⟩ := exists_fits_of_mem_findAll (fun _ _ _ => not_fits_declaration_nil) hm
  obtain ⟨hbegins, d, rfl, -⟩ := exists_of_fits_declaration hfits
  exact Program.takeMatch_nested lineOf_source hcode hfits hspan (Int.ne_of_gt (braceDepth_pos hcode hbegins)) surface

/-! ## All passes -/

/-- The object is found at its opening brace. -/
theorem addModuleExports_eq (surface : Collection) :
    assignment.source.addModuleExports surface headMatch = assignment.source.addProperties surface (byteLength headChars) := by
  have hcode : assignment.source.code = headChars ++ '\x7b' ::
      (code (listItems assignment.entries) ++ '\x7d' :: ';' :: code assignment.ending.items) := assignment.code_source
  have hgroup : (headMatch.group? 1).elim headMatch.span.stop (·.start) = byteLength "module.exports =".toList := by decide
  have hvalue := @skipBlanks_blank _ "module.exports =".toList _ '\x7b' (by decide) hcode
  have hobject := hasAt_byteLength hcode "\x7b"
  have hbegins : "\x7b".toList.isPrefixOf ('\x7b' :: (code (listItems assignment.entries) ++
      '\x7d' :: ';' :: code assignment.ending.items)) = true := rfl
  rw [hbegins] at hobject
  have hhead : "module.exports =".toList ++ [' '] = headChars := by decide
  rw [hhead] at hvalue
  unfold addModuleExports
  rw [hgroup, bind_eq_of_ok hvalue, bind_eq_of_ok hobject, if_pos rfl]

/-- The pass over the assignments lists what is taken for the keys of the properties. -/
theorem IsAlone.succeeds_addModuleExportsAll (h : assignment.IsAlone) (hempty : surface.EverySymbol Symbol.IsSigned)
    (hlists : Lists surface []) :
    Succeeds (Lists · (distinct (assignment.properties.filterMap Property.taken?))) (assignment.source.addModuleExportsAll surface) := by
  have hmem : headMatch ∈ moduleExportsPattern.findAll assignment.source.code := by simp [h.findAll_moduleExports]
  obtain ⟨found, hfound, -⟩ : Succeeds (Collection.EverySymbol Symbol.IsSigned) (assignment.source.addModuleExports surface headMatch) :=
    succeeds_addModuleExports (isMasked_of (assignment.items.flatMap Item.chars)) hempty (isPlaced_of_mem_findAll (by simp [exportPatterns]) hmem)
  refine ⟨found, ?_, ?_⟩
  · rw [addModuleExportsAll, h.findAll_moduleExports, List.foldlM_cons]
    exact bind_eq_ok_iff.mpr ⟨found, hfound, rfl⟩
  · rw [addModuleExports_eq] at hfound
    exact assignment.gives_addProperties hlists found hfound

/-- A script that assigns an object is taken in, and shows as exports what is taken for the keys of the object. -/
theorem IsAlone.extract_text (h : assignment.IsAlone) (filePath : String) (language : Language) : ∃ found,
    extract filePath language assignment.text = .ok found ∧ (∀ e ∈ found.exports, e.exportType = .named ∧ e.style = .assignment) ∧
      found.exports.map (·.name) = distinct (assignment.properties.filterMap Property.taken?) := by
  unfold extract
  rw [text, String.toList_ofList]
  extract_lets s empty
  have hnone {pattern : Pattern} (hpattern : pattern ∈ exportPatterns) (hne : pattern ≠ moduleExportsPattern) :
      pattern.findAll s.code = [] := h.findAll_eq_nil hpattern hne
  have hdeclarations : s.addDeclarations { snapshot := empty } = .ok { snapshot := empty } := addDeclarations_eq _
  have hdefaults : s.addDefaultExpressions { snapshot := empty } = .ok { snapshot := empty } := by
    rw [addDefaultExpressions, hnone (by simp [exportPatterns]) (by rintro ⟨⟩)]
    rfl
  have hclauses : s.addExportClauses { snapshot := empty } = .ok { snapshot := empty } := by
    rw [addExportClauses, hnone (by simp [exportPatterns]) (by rintro ⟨⟩)]
    rfl
  have hstars : s.addExportStars { snapshot := empty } = { snapshot := empty } := by
    rw [addExportStars, hnone (by simp [exportPatterns]) (by rintro ⟨⟩)]
    rfl
  obtain ⟨found, hassigned, hlists⟩ : Succeeds (Lists · (distinct (assignment.properties.filterMap Property.taken?)))
      (s.addModuleExportsAll { snapshot := empty }) :=
    h.succeeds_addModuleExportsAll ⟨List.forall_mem_nil _, List.forall_mem_nil _⟩ ⟨rfl, List.forall_mem_nil _⟩
  have hproperties : s.addExportsProperties found = .ok found := by
    rw [addExportsProperties, hnone (by simp [exportPatterns]) (by rintro ⟨⟩)]
    rfl
  have hdefined : s.addDefinedProperties found = found := by
    rw [addDefinedProperties, hnone (by simp [exportPatterns]) (by rintro ⟨⟩)]
    rfl
  rw [bind_eq_of_ok hdeclarations, bind_eq_of_ok hdefaults, bind_eq_of_ok hclauses, hstars, bind_eq_of_ok hassigned,
    bind_eq_of_ok hproperties, hdefined]
  exact ⟨_, rfl, fun e he => ⟨(hlists.assigned e he).1, (hlists.assigned e he).2.1⟩, hlists.names_eq⟩

end ApiImpact.Assigned.Assignment
