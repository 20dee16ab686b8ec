import ApiImpact.Capture
import ApiImpact.Proofs.Script.Comments
import ApiImpact.Proofs.Script.Declaration

/-!
# The module system and the exports of a script

Exports and the module system are told by different words of the code. A declarative export comes with the word
`export`, which counts for the module system only where a statement opens; an assignment comes with a word that does
not count on a line that begins with `import`.
-/

namespace ApiImpact.Script

open Text Text.Pattern

variable {groups groups' : Groups} {before piece after code text words : List Char} {pattern next : Pattern}

/-! ## Statements -/

/-- A statement begins where `before` ends: behind the beginning of a line or a semicolon, blanks left out. -/
def OpensStatement (before : List Char) : Prop :=
  ∃ front blanks, before = front ++ blanks ∧ (∀ c ∈ blanks, isBlank c = true) ∧ ∀ c ∈ front.getLast?, c = '\n' ∨ c = ';'

/-- The word `import` and the first character of what is imported. -/
def BeginsImport (words : List Char) : Prop :=
  ∃ gap c, words = "import".toList ++ (gap ++ [c]) ∧ (∀ d ∈ gap, isBlank d = true) ∧ isImportFollower c = true

/-- The word `export` and the word or sign with which it goes on. -/
def BeginsExport (words : List Char) : Prop :=
  ∃ gap follower, words = "export".toList ++ (gap ++ follower.toList) ∧ (∀ c ∈ gap, isBlank c = true) ∧
    follower ∈ exportFollowers

theorem fits_opening_append : (firstOf [lineStart, char ';'] ++ (most isBlank ++ next)).Fits groups before piece after groups' ↔
    ∃ sign blanks words, piece = sign ++ (blanks ++ words) ∧ (sign = [] ∧ (∀ c ∈ before.getLast?, c = '\n') ∨ sign = [';']) ∧
      (∀ c ∈ blanks, isBlank c = true) ∧ next.Fits groups (before ++ sign ++ blanks) words after groups' := by
  rw [fits_append]
  simp only [fits_firstOf, List.mem_cons, List.not_mem_nil, or_false, exists_eq_or_imp, exists_eq_left, fits_most_append]
  constructor
  · rintro ⟨sign, _, between, rfl, ⟨rfl, rfl, hbefore⟩ | hsign, blanks, words, rfl, hblanks, hnext⟩
    · exact ⟨[], blanks, words, rfl, .inl ⟨rfl, hbefore⟩, hblanks, hnext⟩
    · obtain ⟨rfl, rfl⟩ := fits_char.mp hsign
      exact ⟨[';'], blanks, words, rfl, .inr rfl, hblanks, hnext⟩
  · rintro ⟨sign, blanks, words, rfl, ⟨rfl, hbefore⟩ | rfl, hblanks, hnext⟩
    · exact ⟨[], _, groups, rfl, .inl ⟨rfl, rfl, hbefore⟩, blanks, words, rfl, hblanks, hnext⟩
    · exact ⟨[';'], _, groups, rfl, .inr (fits_char.mpr ⟨rfl, rfl⟩), blanks, words, rfl, hblanks, hnext⟩

theorem fits_moduleWords : (firstOf [
      literal "import" ++ most isBlank ++ one isImportFollower,
      literal "export" ++ most isBlank ++ firstOf (exportFollowers.map literal)]).Fits groups before piece after groups' ↔
    groups' = groups ∧ (BeginsImport piece ∨ BeginsExport piece) := by
  simp only [fits_firstOf, List.mem_cons, List.not_mem_nil, or_false, exists_eq_or_imp, exists_eq_left, fits_append_assoc,
    fits_literal_append, fits_most_append, List.mem_map]
  constructor
  · rintro (⟨_, rfl, gap, _, rfl, hgap, rfl, c, rfl, hc⟩ | ⟨_, rfl, gap, _, rfl, hgap, _, ⟨follower, hmem, rfl⟩, hfits⟩)
    · exact ⟨rfl, .inl ⟨gap, c, rfl, hgap, hc⟩⟩
    · obtain ⟨rfl, rfl⟩ := fits_literal.mp hfits
      exact ⟨rfl, .inr ⟨gap, follower, rfl, hgap, hmem⟩⟩
  · rintro ⟨rfl, ⟨gap, c, rfl, hgap, hc⟩ | ⟨gap, follower, rfl, hgap, hmem⟩⟩
    · exact .inl ⟨_, rfl, gap, [c], rfl, hgap, rfl, c, rfl, hc⟩
    · exact .inr ⟨_, rfl, gap, _, rfl, hgap, _, ⟨follower, hmem, rfl⟩, fits_literal.mpr ⟨rfl, rfl⟩⟩

/-- The words of a module count where they open a statement. -/
theorem occursIn_esmPattern_iff : esmPattern.occursIn code = true ↔ ∃ before words after,
    code = before ++ (words ++ after) ∧ OpensStatement before ∧ (BeginsImport words ∨ BeginsExport words) := by
  rw [occursIn_iff]
  simp only [esmPattern, fits_append_assoc, fits_opening_append, fits_moduleWords]
  constructor
  · rintro ⟨front, _, after, _, rfl, sign, blanks, words, rfl, hsign, hblanks, -, hwords⟩
    refine ⟨front ++ sign ++ blanks, words, after, by simp, ⟨front ++ sign, blanks, rfl, hblanks, fun c hc => ?_⟩, hwords⟩
    rcases hsign with ⟨rfl, hfront⟩ | rfl
    · exact .inl (hfront c (by simpa using hc))
    · exact .inr (by simpa using hc.symm)
  · rintro ⟨_, words, after, rfl, ⟨front, blanks, rfl, hblanks, hfront⟩, hwords⟩
    rcases List.eq_nil_or_concat front with rfl | ⟨front, c, rfl⟩
    · exact ⟨[], blanks ++ words, after, [], by simp, [], blanks, words, rfl, .inl ⟨rfl, by simp⟩, hblanks, rfl, hwords⟩
    · rw [List.concat_eq_append, List.getLast?_concat] at hfront
      rcases hfront c rfl with rfl | rfl
      · exact ⟨front ++ ['\n'], blanks ++ words, after, [], by simp, [], blanks, words, rfl, .inl ⟨rfl, by simp⟩, hblanks,
          rfl, hwords⟩
      · exact ⟨front, ';' :: (blanks ++ words), after, [], by simp, [';'], blanks, words, rfl, .inr rfl, hblanks, rfl, hwords⟩

/-! ## Declarative exports -/

/-- The code has the beginning of an export somewhere. -/
def HasExport (code : List Char) : Prop :=
  ∃ before words after, code = before ++ (words ++ after) ∧ BeginsExport words

theorem DeclarationWords.hasExport {d : DeclarationWords} (h : d.exporting ≠ []) : HasExport (before ++ (d.chars ++ after)) := by
  have hfollowers : ∀ word ∈ "async" :: "function" :: plainKeywords, word ∈ exportFollowers := by decide
  have hexport {gap : List Char} {follower : String} (rest : List Char) (hgap : ∀ c ∈ gap, isGap c = true)
      (hmem : follower ∈ exportFollowers)
      (hchars : d.chars = d.indent ++ ("export".toList ++ (gap ++ (follower.toList ++ rest)))) :
      HasExport (before ++ (d.chars ++ after)) :=
    ⟨before ++ d.indent, _, rest ++ after, by simp [hchars], gap, follower, rfl, fun c hc => isBlank_of_isGap (hgap c hc), hmem⟩
  obtain ⟨gap, hexporting, -, hgap⟩ := d.exporting_eq.resolve_left h
  rcases d.defaulting_eq with hdefaulting | ⟨-, gap', hdefaulting, -⟩
  · obtain ⟨word, hmem, rest, hrest⟩ := d.exists_modifier_or_keyword
    refine hexport rest hgap (hfollowers word hmem) ?_
    rw [d.chars_eq, hexporting, hdefaulting, List.nil_append, hrest, List.append_assoc]
  · refine hexport (gap' ++ (d.modifier ++ (d.keyword.toList ++ (d.behind ++ d.name)))) hgap (by decide : "default" ∈ exportFollowers) ?_
    rw [d.chars_eq, hexporting, hdefaulting]
    simp only [List.append_assoc]

theorem hasExport_of_fits {follower : String} (hpattern : (pattern, follower) ∈ followedPatterns)
    (h : pattern.Fits [] before piece after groups) : HasExport (before ++ (piece ++ after)) := by
  have hfollowers : ∀ entry ∈ followedPatterns, entry.2 ∈ exportFollowers := by
    simp [followedPatterns, exportFollowers]
  obtain ⟨-, gap, more, rfl, hgap, -⟩ := exists_follower_of_fits hpattern h
  exact ⟨before, _, more ++ after, by simp, gap, follower, rfl, hgap, hfollowers _ hpattern⟩

/-! ## Assignments -/

/-- Behind a word character, a word ends where no other one stands. -/
theorem atWordEdge_of_stop {front ahead : List Char} {c : Char} (hc : isWordChar c = true)
    (hstop : ∀ d ∈ ahead.head?, isWordChar d = false) : atWordEdge (.between (front ++ [c]) ahead) = true := by
  have hbehind : (Place.between (front ++ [c]) ahead).behind.any isWordChar = true := by simp [Place.between, hc]
  have hahead : (Place.between (front ++ [c]) ahead).ahead.head?.any isWordChar = false := by
    rw [Place.between_ahead]
    cases hhead : ahead.head? with
    | none => rfl
    | some d => exact hstop d hhead
  rw [atWordEdge, hbehind, hahead]
  rfl

/-- What counts for the other module system stands in the code. -/
def HasCommonJs (code : List Char) : Prop :=
  ∃ before piece after groups, code = before ++ (piece ++ after) ∧ commonJsPattern.Fits [] before piece after groups

theorem HasCommonJs.exists_mem (h : HasCommonJs code) : ∃ m, m ∈ commonJsPattern.findAll code := by
  obtain ⟨before, piece, after, groups, rfl, hfits⟩ := h
  obtain ⟨m, hm, -⟩ := exists_mem_findAll_of_fits (not_fits_nil (by decide)) hfits
  exact ⟨m, hm⟩

/-- What stands behind blanks or at once is no part of a word if neither blanks nor the sign are. -/
theorem stop_append {blanks rest : List Char} {c : Char} (hblanks : ∀ d ∈ blanks, isBlank d = true)
    (hc : isWordChar c = false) : ∀ d ∈ (blanks ++ c :: rest).head?, isWordChar d = false := by
  cases blanks with
  | nil => simpa using hc
  | cons b blanks => simpa using isWordChar_of_isBlank (hblanks b List.mem_cons_self)

theorem hasCommonJs_of_mem {patterns : List Pattern} (hpatterns : commonJsPattern = firstOf patterns) (hmem : pattern ∈ patterns)
    (h : pattern.Fits [] before piece after groups) : HasCommonJs (before ++ (piece ++ after)) :=
  ⟨before, piece, after, groups, rfl, hpatterns ▸ fits_firstOf.mpr ⟨pattern, hmem, h⟩⟩

/-- The access to the exports object, whole, before a sign or a blank. -/
theorem hasCommonJs_module (hedge : ∀ c ∈ before.getLast?, isWordChar c = false)
    (hstop : ∀ c ∈ after.head?, isWordChar c = false) : HasCommonJs (before ++ ("module.exports".toList ++ after)) := by
  have hend : atWordEdge (.between (before ++ "module.exports".toList) after) = true := by
    have hsplit : before ++ "module.exports".toList = (before ++ "module.export".toList) ++ ['s'] := by
      rw [List.append_assoc]
      rfl
    rw [hsplit]
    exact atWordEdge_of_stop (by decide) hstop
  refine @hasCommonJs_of_mem [] _ _ _ _ _ rfl (List.mem_cons_of_mem _ List.mem_cons_self) ?_
  rw [fits_append_assoc, fits_wordEdge_append, fits_literal_append]
  exact ⟨(atWordEdge_iff (by rfl)).mpr hedge, [], by simp, rfl, rfl, by simpa using hend⟩

/-- A property of the exports. -/
theorem hasCommonJs_property {c : Char} (hedge : ∀ c ∈ before.getLast?, isWordChar c = false)
    (hc : isAsciiIdentifierStart c = true) : HasCommonJs (before ++ ("exports.".toList ++ [c] ++ after)) := by
  refine @hasCommonJs_of_mem [] _ _ _ _ _ rfl (List.mem_cons_of_mem _ (List.mem_cons_of_mem _ List.mem_cons_self)) ?_
  rw [fits_append_assoc, fits_wordEdge_append, fits_literal_append]
  exact ⟨(atWordEdge_iff (by rfl)).mpr hedge, [c], rfl, rfl, c, rfl, hc⟩

/-- The definition of a property of the exports. -/
theorem hasCommonJs_define {blanks : List Char} (hedge : ∀ c ∈ before.getLast?, isWordChar c = false)
    (hblanks : ∀ c ∈ blanks, isBlank c = true) (hstop : ∀ c ∈ after.head?, isWordChar c = false) :
    HasCommonJs (before ++ ("defineProperty(".toList ++ (blanks ++ "exports".toList) ++ after)) := by
  have hend : atWordEdge (.between (before ++ "defineProperty(".toList ++ blanks ++ "exports".toList) after) = true := by
    have hsplit : before ++ "defineProperty(".toList ++ blanks ++ "exports".toList =
        (before ++ "defineProperty(".toList ++ blanks ++ "export".toList) ++ ['s'] := by
      simp only [List.append_assoc]
      rfl
    rw [hsplit]
    exact atWordEdge_of_stop (by decide) hstop
  refine @hasCommonJs_of_mem [] _ _ _ _ _ rfl (List.mem_cons_of_mem _ (List.mem_cons_of_mem _
    (List.mem_cons_of_mem _ List.mem_cons_self))) ?_
  simp only [fits_append_assoc, fits_wordEdge_append, fits_literal_append, fits_most_append]
  exact ⟨(atWordEdge_iff (by rfl)).mpr hedge, _, rfl, blanks, _, rfl, hblanks, [], by simp, rfl, rfl, by simpa using hend⟩

/-- Every assignment to the exports is one of these. -/
theorem hasCommonJs_of_fits (hpattern : pattern ∈ [moduleExportsPattern, exportsPropertyPattern, definePropertyPattern])
    (h : pattern.Fits [] before piece after groups) : HasCommonJs (before ++ (piece ++ after)) := by
  simp only [List.mem_cons, List.not_mem_nil, or_false] at hpattern
  rcases hpattern with rfl | rfl | rfl
  · simp only [moduleExportsPattern, assigned, fits_append_assoc, fits_wordEdge_append, fits_literal_append,
      fits_most_append, fits_char_append] at h
    obtain ⟨hedge, _, rfl, blanks, _, rfl, hblanks, rest, rfl, -⟩ := h
    have hmodule : HasCommonJs (before ++ ("module.exports".toList ++ (blanks ++ '=' :: (rest ++ after)))) :=
      hasCommonJs_module ((atWordEdge_iff (by rfl)).mp hedge) (stop_append hblanks (by decide))
    simpa using hmodule
  · simp only [exportsPropertyPattern, exportsObject, fits_append_assoc, fits_wordEdge_append, fits_optional_append,
      fits_literal_append, fits_char_append] at h
    obtain ⟨hedge, ⟨_, rfl, _, rfl, rest, rfl, -⟩ | ⟨_, rfl, _, rfl, _, rest, _, rfl, ⟨_, hname, rfl⟩, -⟩⟩ := h
    · have hmodule : HasCommonJs (before ++ ("module.exports".toList ++ '.' :: (rest ++ after))) :=
        hasCommonJs_module ((atWordEdge_iff (by rfl)).mp hedge) (@stop_append [] _ _ (by simp) (by decide))
      simpa using hmodule
    · rw [scriptName, fits_one_append] at hname
      obtain ⟨c, name, rfl, hc, -⟩ := hname
      have hproperty : HasCommonJs (before ++ ("exports.".toList ++ [c] ++ (name ++ rest ++ after))) :=
        hasCommonJs_property ((atWordEdge_iff (by rfl)).mp hedge) hc
      simpa using hproperty
  · simp only [definePropertyPattern, exportsObject, fits_append_assoc, fits_wordEdge_append, fits_optional_append,
      fits_literal_append, fits_most_append, fits_char_append] at h
    obtain ⟨hedge, _, rfl, blanks, _, rfl, hblanks, ⟨_, rfl, _, rfl, tail, _, rfl, htail, rest, rfl, -⟩ |
      ⟨_, rfl, tail, _, rfl, htail, rest, rfl, -⟩⟩ := h
    · have hfront : ∀ c ∈ (before ++ "Object.defineProperty(".toList ++ blanks).getLast?, isWordChar c = false := by
        rcases List.eq_nil_or_concat blanks with rfl | ⟨blanks, d, rfl⟩
        · simp [List.getLast?_append]
          decide
        · have hlast := isWordChar_of_isBlank (hblanks d (by simp))
          rw [List.concat_eq_append, ← List.append_assoc, List.getLast?_concat]
          rintro c ⟨⟩
          exact hlast
      have hmodule : HasCommonJs (before ++ "Object.defineProperty(".toList ++ blanks ++
          ("module.exports".toList ++ (tail ++ ',' :: (rest ++ after)))) :=
        hasCommonJs_module hfront (stop_append htail (by decide))
      simpa using hmodule
    · have hdefine : HasCommonJs (before ++ "Object.".toList ++ ("defineProperty(".toList ++ (blanks ++ "exports".toList) ++
          (tail ++ ',' :: (rest ++ after)))) :=
        hasCommonJs_define (by simp [List.getLast?_append]; decide) hblanks (stop_append htail (by decide))
      simpa using hdefine

/-! ## The module system -/

theorem moduleSystem_esm_iff {text : String} : moduleSystem text ∈ [ModuleSystem.esm, .mixed] ↔
    esmPattern.occursIn (codeOnly text.toList) = true := by
  simp only [moduleSystem]
  generalize esmPattern.occursIn (codeOnly text.toList) = esm
  generalize ((commonJsPattern.findAll (codeOnly text.toList)).any _) = commonJs
  cases esm <;> cases commonJs <;> decide

theorem moduleSystem_commonJs_iff {text : String} : moduleSystem text ∈ [ModuleSystem.commonJs, .mixed] ↔
    ∃ m ∈ commonJsPattern.findAll (codeOnly text.toList), isInImport (codeOnly text.toList) m = false := by
  have hany : (∃ m ∈ commonJsPattern.findAll (codeOnly text.toList), isInImport (codeOnly text.toList) m = false) ↔
      ((commonJsPattern.findAll (codeOnly text.toList)).any fun m => !isInImport (codeOnly text.toList) m) = true := by
    simp [List.any_eq_true]
  rw [hany]
  simp only [moduleSystem]
  generalize esmPattern.occursIn (codeOnly text.toList) = esm
  generalize ((commonJsPattern.findAll (codeOnly text.toList)).any _) = commonJs
  cases esm <;> cases commonJs <;> decide

/-- The words that the style of an export comes with. -/
structure HasWords (code : List Char) (e : Export) : Prop where
  declarative : e.style = .declarative → HasExport code
  assignment : e.style = .assignment → ∃ m, m ∈ commonJsPattern.findAll code

theorem hasWords_of_declarative {e : Export} (he : e.style = .declarative) (h : HasExport code) : HasWords code e :=
  ⟨fun _ => h, fun hassigned => nomatch he.symm.trans hassigned⟩

theorem hasWords_of_assignment {e : Export} (he : e.style = .assignment) (h : ∃ m, m ∈ commonJsPattern.findAll code) :
    HasWords code e :=
  ⟨fun hdeclared => (nomatch he.symm.trans hdeclared), fun _ => h⟩

/-- The words of every export stand in the code. -/
theorem hasWords_of_extract {filePath text : String} {language : Language} {snapshot : Snapshot}
    (h : extract filePath language text = .ok snapshot) :
    snapshot.isFailed = false ∧ ∀ e ∈ snapshot.exports, HasWords (codeOnly text.toList) e := by
  have hfollowed : ∀ entry ∈ followedPatterns, ∀ m ∈ entry.1.findAll (codeOnly text.toList), HasExport (codeOnly text.toList) := by
    have hlengths : ∀ entry ∈ followedPatterns, 0 < entry.1.leastLength := by decide
    intro entry hentry m hm
    obtain ⟨before, piece, after, hcode, hfits, -⟩ := exists_fits_of_mem_findAll (not_fits_nil (hlengths entry hentry)) hm
    exact hcode ▸ hasExport_of_fits hentry hfits
  have hdeclarations : ∀ head ∈ (declarationPattern.findAll (codeOnly text.toList)).filterMap
      (Source.of text.toList).declarationHead?, head.exported = true → HasExport (codeOnly text.toList) := by
    intro head hhead hexported
    obtain ⟨m, hm, hmatched⟩ := List.mem_filterMap.mp hhead
    obtain ⟨before, d, after, hcode, -, hwritten⟩ := @exists_words_of_mem_findAll (Source.of text.toList) m hm
    obtain rfl := Option.some.inj (hwritten.symm.trans hmatched)
    have hne : d.exporting ≠ [] := by simpa [DeclarationWords.head] using hexported
    have hexport : HasExport (before ++ (d.chars ++ after)) := DeclarationWords.hasExport hne
    rwa [← hcode] at hexport
  have hassigned : ∀ pattern ∈ [moduleExportsPattern, exportsPropertyPattern, definePropertyPattern],
      ∀ m ∈ pattern.findAll (codeOnly text.toList), ∃ m, m ∈ commonJsPattern.findAll (codeOnly text.toList) := by
    have hlengths : ∀ pattern ∈ [moduleExportsPattern, exportsPropertyPattern, definePropertyPattern],
        0 < pattern.leastLength := by decide
    intro pattern hpattern m hm
    obtain ⟨before, piece, after, hcode, hfits, -⟩ := exists_fits_of_mem_findAll (not_fits_nil (hlengths pattern hpattern)) hm
    exact hcode ▸ (hasCommonJs_of_fits hpattern hfits).exists_mem
  obtain ⟨hanalyzed, hexports, -⟩ := consists_of_extract h
    (fun head hm hexported e he => hasWords_of_declarative he.style_eq (hdeclarations head hm hexported))
    (fun m hm e he => hasWords_of_declarative he.style_eq (hfollowed (exportDefaultPattern, "default") (by simp [followedPatterns]) m hm))
    (fun m hm surface hsurface => Source.consists_addExportClause hsurface m fun e he _ =>
      hasWords_of_declarative he (hfollowed (exportClausePattern, "\x7b") (by simp [followedPatterns]) m hm))
    (fun m hm surface hsurface => Source.consists_addExportStar hsurface m fun e he _ =>
      hasWords_of_declarative he (hfollowed (exportStarPattern, "*") (by simp [followedPatterns]) m hm))
    (fun pattern hpattern m hm e he => hasWords_of_assignment he.style_eq (hassigned pattern hpattern m hm))
  exact ⟨hanalyzed, hexports⟩

end ApiImpact.Script

namespace ApiImpact.Snapshot

open Text Script

variable {settings : Settings} {filePath text : String} {manifest : Option String} {s : Snapshot}

/-- A script without types has the word `export` if it has a declarative export, and its module system tells so just
when an import or export opens a statement. It has a word of assignments if it has an assigned export, and its module system
tells so just when one of these words stands on a line that does not begin with `import`. -/
theorem exports_in_system (hpath : (Path.ofString filePath).IsUntyped) (h : capture settings filePath text manifest = .ok s) :
    ((∃ e ∈ s.exports, e.style = .declarative) → HasExport (codeOnly text.toList) ∧
      (s.moduleSystem ∈ [ModuleSystem.esm, .mixed] ↔ ∃ before words after, codeOnly text.toList = before ++ (words ++ after) ∧
        OpensStatement before ∧ (BeginsImport words ∨ BeginsExport words))) ∧
    ((∃ e ∈ s.exports, e.style = .assignment) → (∃ m, m ∈ commonJsPattern.findAll (codeOnly text.toList)) ∧
      (s.moduleSystem ∈ [ModuleSystem.commonJs, .mixed] ↔
        ∃ m ∈ commonJsPattern.findAll (codeOnly text.toList), isInImport (codeOnly text.toList) m = false)) := by
  obtain ⟨surface, hsurface, h⟩ := bind_eq_ok_iff.mp h
  cases h
  simp only [surfaceOf, hpath.isTyped_eq_false, Bool.false_eq_true, if_false] at hsurface
  split_ifs at hsurface with hsize
  · cases hsurface
    have hnone (style : ExportStyle) : ¬ ∃ e ∈ ([] : List Export), e.style = style := by simp
    exact ⟨fun h => absurd h (hnone _), fun h => absurd h (hnone _)⟩
  · obtain ⟨hanalyzed, hwords⟩ := hasWords_of_extract hsurface
    simp only [hanalyzed, Bool.false_eq_true, if_false]
    constructor
    · rintro ⟨e, he, hstyle⟩
      exact ⟨(hwords e he).declarative hstyle, moduleSystem_esm_iff.trans occursIn_esmPattern_iff⟩
    · rintro ⟨e, he, hstyle⟩
      exact ⟨(hwords e he).assignment hstyle, moduleSystem_commonJs_iff⟩

/-- An `export` behind another statement of its line, and an assignment behind an `import`, are exports that the module
system does not tell of. -/
theorem exports_in_system_of_inline :
    (let text := "function f() \x7b\x7d export default f;\n"
      ∃ s, capture {} "m.js" text none = .ok s ∧ (∃ e ∈ s.exports, e.style = .declarative) ∧ HasExport (codeOnly text.toList) ∧
        s.moduleSystem ∉ [ModuleSystem.esm, .mixed]) ∧
    (let text := "import x from 'y'; module.exports = x;\n"
      ∃ s, capture {} "m.js" text none = .ok s ∧ (∃ e ∈ s.exports, e.style = .assignment) ∧
        s.moduleSystem ∉ [ModuleSystem.commonJs, .mixed] ∧
          ∃ m, m ∈ commonJsPattern.findAll (codeOnly text.toList) ∧ isInImport (codeOnly text.toList) m = true) := by
  have hpath : (Path.ofString "m.js").IsUntyped := by decide +kernel
  constructor
  · intro text
    have hexports : (capture {} "m.js" text none).toOption.any fun s =>
        s.exports.any (·.style == .declarative) && s.moduleSystem == .unknown := by decide +kernel
    obtain ⟨s, hs⟩ : ∃ s, capture {} "m.js" text none = .ok s := isOk_iff.mp (by decide +kernel)
    rw [hs] at hexports
    obtain ⟨hstyle, hsystem⟩ := Bool.and_eq_true_iff.mp hexports
    have hsystem : s.moduleSystem = .unknown := beq_iff_eq.mp hsystem
    obtain ⟨e, he, hstyle⟩ := List.any_eq_true.mp hstyle
    have hdeclarative : ∃ e ∈ s.exports, e.style = .declarative := ⟨e, he, beq_iff_eq.mp hstyle⟩
    have hword := ((exports_in_system hpath hs).1 hdeclarative).1
    exact ⟨s, hs, hdeclarative, hword, by simp [hsystem]⟩
  · intro text
    have hexports : (capture {} "m.js" text none).toOption.any fun s =>
        s.exports.any (·.style == .assignment) && s.moduleSystem == .esm := by decide +kernel
    obtain ⟨s, hs⟩ : ∃ s, capture {} "m.js" text none = .ok s := isOk_iff.mp (by decide +kernel)
    rw [hs] at hexports
    obtain ⟨hstyle, hsystem⟩ := Bool.and_eq_true_iff.mp hexports
    have hsystem : s.moduleSystem = .esm := beq_iff_eq.mp hsystem
    obtain ⟨e, he, hstyle⟩ := List.any_eq_true.mp hstyle
    have hassigned : ∃ e ∈ s.exports, e.style = .assignment := ⟨e, he, beq_iff_eq.mp hstyle⟩
    have hother : s.moduleSystem ∉ [ModuleSystem.commonJs, .mixed] := by simp [hsystem]
    obtain ⟨⟨m, hm⟩, hiff⟩ := (exports_in_system hpath hs).2 hassigned
    refine ⟨s, hs, hassigned, hother, m, hm, ?_⟩
    by_contra hcounts
    exact hother (hiff.mpr ⟨m, hm, by simpa using hcounts⟩)

end ApiImpact.Snapshot
