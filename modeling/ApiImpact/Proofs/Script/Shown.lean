import ApiImpact.Proofs.Assigned.Exported
import ApiImpact.Proofs.Script.Additions
import ApiImpact.Proofs.Script.Completes
import ApiImpact.Proofs.Script.Growth

/-!
# Declarations that a script exports

What is declared behind the word `export` on a line outside all braces shows in the snapshot just as it is read. An earlier
declaration of its name could take its place, and a later one or any other pass over the script cannot.
-/

namespace ApiImpact

/-! ## What stays in a snapshot -/

namespace Snapshot

/-- In its list `symbol` is the only one of its name, and `e` is the only export of its identity. -/
structure Presents (s : Snapshot) (symbol : Symbol) (e : Export) : Prop where
  symbols : (s.shelf symbol.shelf).filter (·.qualifiedName == symbol.qualifiedName) = [symbol]
  exports : s.exports.filter (·.key == e.key) = [e]

/-- Neither a symbol nor a named export goes by the name. -/
structure Lacks (s : Snapshot) (name : String) : Prop where
  symbols : ∀ symbol ∈ s.symbols, symbol.qualifiedName ≠ name
  exports : ∀ e ∈ s.exports, e.key ≠ ⟨.named, name, none⟩

variable {s : Snapshot} {symbol : Symbol} {e : Export} {name : String}

theorem Presents.addSymbol (h : s.Presents symbol e) (other : Symbol) : (s.addSymbol other).Presents symbol e where
  symbols := by
    rw [Snapshot.addSymbol]
    split_ifs with hknown
    · exact h.symbols
    · have hother : ¬ (other.shelf = symbol.shelf ∧ other.qualifiedName = symbol.qualifiedName) := by
        rintro ⟨hshelf, hname⟩
        have hmem : symbol ∈ (s.shelf symbol.shelf).filter (·.qualifiedName == symbol.qualifiedName) :=
          h.symbols ▸ List.mem_singleton_self symbol
        refine hknown (List.any_eq_true.mpr ⟨symbol, ?_, by simp [hname]⟩)
        rw [hshelf]
        exact (List.mem_filter.mp hmem).1
      have hfilter := h.symbols
      rw [shelf, List.filter_filter] at hfilter ⊢
      rw [List.filter_append, hfilter, List.filter_cons_of_neg (by simpa [and_comm] using hother)]
      rfl
  exports := by
    rw [Snapshot.addSymbol]
    split_ifs <;> exact h.exports

theorem Presents.addExport (h : s.Presents symbol e) (other : Export) : (s.addExport other).Presents symbol e where
  symbols := by
    rw [Snapshot.addExport]
    split_ifs <;> exact h.symbols
  exports := by
    rw [Snapshot.addExport]
    split_ifs with hknown
    · exact h.exports
    · have hother : other.key ≠ e.key := by
        intro hkey
        have hmem : e ∈ s.exports.filter (·.key == e.key) := h.exports ▸ List.mem_singleton_self e
        exact hknown (List.any_eq_true.mpr ⟨e, (List.mem_filter.mp hmem).1, by simp [hkey]⟩)
      rw [List.filter_append, h.exports, List.filter_cons_of_neg (by simpa using hother)]
      rfl

theorem Lacks.publish (h : s.Lacks name) (hname : symbol.qualifiedName ≠ name) : (s.publish symbol).Lacks name := by
  rw [Snapshot.publish, Snapshot.addSymbol]
  split_ifs
  · exact h
  · refine ⟨fun other hother => ?_, h.exports⟩
    rcases List.mem_append.mp hother with hother | hother
    · exact h.symbols other hother
    · obtain rfl := List.mem_singleton.mp hother
      exact hname

theorem Lacks.addExport (h : s.Lacks name) (hkey : e.key ≠ ⟨.named, name, none⟩) : (s.addExport e).Lacks name := by
  rw [Snapshot.addExport]
  split_ifs
  · exact h
  · refine ⟨h.symbols, fun other hother => ?_⟩
    rcases List.mem_append.mp hother with hother | hother
    · exact h.exports other hother
    · obtain rfl := List.mem_singleton.mp hother
      exact hkey

/-- What is new is taken in as it is. -/
theorem Lacks.publish_addExport (h : s.Lacks name) (hname : symbol.qualifiedName = name) (hkey : e.key = ⟨.named, name, none⟩) :
    (s.publish symbol).addExport e =
      { s with symbols := s.symbols ++ [{ symbol with exported := true }], exports := s.exports ++ [e] } := by
  have hsymbols : ¬ (s.shelf symbol.shelf).any (·.qualifiedName == symbol.qualifiedName) := by
    rw [List.any_eq_true]
    rintro ⟨other, hother, heq⟩
    exact h.symbols other (List.mem_of_mem_filter hother) ((eq_of_beq heq).trans hname)
  have hexports : ¬ s.exports.any (·.key == e.key) := by
    rw [List.any_eq_true]
    rintro ⟨other, hother, heq⟩
    exact h.exports other hother ((eq_of_beq heq).trans hkey)
  have hpublish : s.publish symbol = { s with symbols := s.symbols ++ [{ symbol with exported := true }] } := if_neg hsymbols
  rw [hpublish, Snapshot.addExport, if_neg hexports]

theorem Lacks.presents (h : s.Lacks name) (hname : symbol.qualifiedName = name) (hkey : e.key = ⟨.named, name, none⟩) :
    ((s.publish symbol).addExport e).Presents { symbol with exported := true } e := by
  rw [h.publish_addExport hname hkey]
  refine ⟨?_, ?_⟩
  · have hnone : s.symbols.filter (fun other => other.qualifiedName == symbol.qualifiedName && other.shelf == symbol.shelf) = [] := by
      refine List.filter_eq_nil_iff.mpr fun other hother heq => ?_
      have heq : other.qualifiedName = symbol.qualifiedName := eq_of_beq (Bool.and_eq_true_iff.mp heq).1
      exact h.symbols other hother (heq.trans hname)
    rw [shelf, List.filter_filter, List.filter_append]
    simp only [Symbol.shelf] at hnone ⊢
    rw [hnone]
    simp
  · have hnone : s.exports.filter (·.key == e.key) = [] := by
      refine List.filter_eq_nil_iff.mpr fun other hother heq => ?_
      exact h.exports other hother ((eq_of_beq heq).trans hkey)
    rw [List.filter_append, hnone]
    simp

end Snapshot

/-- What a surface shows it keeps showing. -/
theorem Collection.Grows.presents {first found : Collection} {symbol : Symbol} {e : Export} (h : first.Grows found)
    (hpresents : first.snapshot.Presents symbol e) : found.snapshot.Presents symbol e := by
  induction h with
  | refl => exact hpresents
  | declare _ declared ih => exact ih
  | publish _ other ih => exact ih.addSymbol _
  | addExport _ other ih => exact ih.addExport other
  | addImport _ i ih => exact ⟨ih.symbols, ih.exports⟩

namespace Script

open Text Text.Pattern Program Source

/-! ## How the passes behind the declarations grow a surface -/

/-- What is found behind the declarations is taken into their surface. -/
theorem exists_grows_of_extract {filePath text : String} {language : Language} {found : Snapshot}
    (h : extract filePath language text = .ok found) : ∃ declared last : Collection,
      (Source.of text.toList).addDeclarations
        { snapshot := { filePath, language, status := if (Source.of text.toList).isBalanced then .parsed else .incomplete } } = .ok declared ∧
        declared.Grows last ∧ found.symbols = last.snapshot.symbols ∧ found.exports = last.snapshot.exports := by
  unfold extract at h
  extract_lets s empty at h
  obtain ⟨declared, hdeclared, h⟩ := bind_eq_ok_iff.mp h
  have hgives : Gives (fun found => ∃ last : Collection, declared.Grows last ∧ found.symbols = last.snapshot.symbols ∧
      found.exports = last.snapshot.exports) (s.addDefaultExpressions declared >>= fun surface => do
        let surface ← s.addExportClauses surface
        let surface ← s.addModuleExportsAll (s.addExportStars surface)
        let surface ← s.addExportsProperties surface
        let surface := s.addDefinedProperties surface
        return { surface.snapshot with imports := (ModuleReference.extract text).filterMap importOf? }) := by
    refine Gives.bind (P := declared.Grows) ?_ fun surface h => ?_
    · exact gives_foldlM (fun m _ surface h => Source.grows_addDefaultExpression h m) .refl
    refine Gives.bind (P := declared.Grows) ?_ fun surface h => ?_
    · exact gives_foldlM (fun m _ surface h => Source.grows_addExportClause h m) h
    have hstars : declared.Grows (s.addExportStars surface) :=
      List.foldlRecOn _ _ h fun surface h m _ => Source.grows_addExportStar h m
    refine Gives.bind (P := declared.Grows) ?_ fun surface h => ?_
    · exact gives_foldlM (fun m _ surface h => Source.grows_addModuleExports h m) hstars
    refine Gives.bind (P := declared.Grows) ?_ fun surface h => ?_
    · exact gives_foldlM (fun m _ surface h => Source.grows_addExportsProperty h m) h
    have hdefined : declared.Grows (s.addDefinedProperties surface) :=
      List.foldlRecOn _ _ h fun surface h m _ => Source.grows_addDefinedProperty h m
    exact gives_pure ⟨_, hdefined, rfl, rfl⟩
  obtain ⟨last, hlast⟩ := hgives found h
  exact ⟨declared, last, hdeclared, hlast⟩

namespace Source

/-- The declarations that are found in the script. -/
def heads (s : Source) : List DeclarationHead := (declarationPattern.findAll s.code).filterMap s.declarationHead?

/-- In the script `s` the words `d` begin a line outside all braces, and `after` stands behind the name. -/
structure Exports (s : Source) (before : List Char) (d : DeclarationWords) (after : List Char) : Prop where
  code : s.code = before ++ (d.chars ++ after)
  position : s.position = positionOf s.code
  begins : ∀ c ∈ before.getLast?, c = '\n'
  level : braceDepth before = 0
  ends : ∀ c ∈ after.head?, isNameChar c = false

/-- No declaration in front of `start` has the name, and none makes the extraction break off. -/
structure Admits (s : Source) (start : Nat) (name : String) : Prop where
  first : ∀ head ∈ s.heads, head.start < start → head.name ≠ name
  completes : ∀ head ∈ s.heads, ¬ s.BreaksOff head

/-- One declaration stands outside all braces, and no other word for exports is found. -/
structure IsSingle (s : Source) : Prop where
  declares : (s.heads.filter fun head => s.isTopLevel head.start).length = 1
  quiet : ∀ pattern ∈ exportPatterns, pattern.findAll s.code = []

variable {s : Source} {before after name : List Char} {keyword : String} {hkeyword : keyword ∈ "function" :: plainKeywords}
  {hname : isWritten name = true} {declared : Local} {surface : Collection} {head : DeclarationHead}

/-- A script of characters of a single byte never makes the extraction break off. -/
theorem not_breaksOff (h : ∀ c ∈ s.code, c.utf8Size = 1) (head : DeclarationHead) : ¬ s.BreaksOff head := by
  intro hbreaks
  obtain ⟨front, blanks, c, rest, hcode, -, -, -, hwide⟩ := hbreaks.wide
  have hc := h c (by simp [hcode])
  omega

/-! ## The pass over the declarations -/

theorem qualifiedName_classAt (s : Source) (start : Nat) (name : String) (offset : Nat) :
    Gives (fun found => found.symbol.qualifiedName = name) (s.classAt start name offset) :=
  fun found hfound => congrArg Prod.snd (declared_classAt s start name offset found hfound)

theorem qualifiedName_bindingAt (s : Source) (start : Nat) (name : String) (afterName : Nat) (keyword : String) :
    Gives (fun found => found.symbol.qualifiedName = name) (s.bindingAt start name afterName keyword) := by
  unfold bindingAt
  refine gives_bind fun sign _ => gives_bind fun equals _ => gives_bind fun twice _ => gives_bind fun value _ => ?_
  extract_lets short
  split_ifs
  · exact gives_bind fun rest _ => gives_pure rfl
  · refine gives_bind fun shape _ => ?_
    cases shape with
    | function =>
        refine gives_bind fun found _ => ?_
        cases found with
        | none => exact gives_pure rfl
        | some found => exact gives_pure rfl
    | classType => exact (qualifiedName_classAt _ _ _ _).bind fun found hfound => gives_pure hfound
    | object => exact gives_pure rfl
    | other => exact gives_pure rfl

/-- What is declared goes by the name that is found. -/
theorem qualifiedName_declarationAt? (s : Source) (head : DeclarationHead) :
    Gives (fun found => ∀ declared ∈ found, declared.symbol.qualifiedName = head.name) (s.declarationAt? head) := by
  have hsome {declared : Local} (h : declared.symbol.qualifiedName = head.name) :
      ∀ other ∈ some declared, other.symbol.qualifiedName = head.name := by
    rintro _ ⟨⟩
    exact h
  unfold declarationAt?
  split
  · refine gives_bind fun found _ => gives_pure fun declared hdeclared => ?_
    obtain ⟨found, -, rfl⟩ := Option.map_eq_some_iff.mp hdeclared
    rfl
  · exact (qualifiedName_classAt _ _ _ _).bind fun declared h => gives_pure (hsome h)
  · exact (qualifiedName_bindingAt _ _ _ _ _).bind fun declared h => gives_pure (hsome h)

/-- A declaration of another name leaves the name free. -/
theorem lacks_addDeclaration {name : String} (h : surface.snapshot.Lacks name) (hname : head.name ≠ name) :
    Gives (fun found => found.snapshot.Lacks name) (s.addDeclaration surface head) := by
  unfold addDeclaration
  split
  · exact gives_pure h
  · refine (qualifiedName_declarationAt? s head).bind fun found hfound => ?_
    cases found with
    | none => exact gives_pure h
    | some declared =>
        have hpublished := h.publish fun heq => hname ((hfound declared rfl).symm.trans heq)
        refine gives_pure ?_
        dsimp only
        split_ifs
        · exact hpublished.addExport fun hkey => nomatch congrArg ExportKey.exportType hkey
        · exact hpublished.addExport fun hkey => hname (congrArg ExportKey.name hkey)
        · exact h

namespace Exports

/-- The words that are found at the declaration. -/
theorem exists_heads (h : s.Exports before (headWords false false hkeyword hname) after) : ∃ earlier later,
    s.heads = earlier ++ (headWords false false hkeyword hname).head before :: later ∧
      ∀ head ∈ earlier, head.start < byteLength before := by
  obtain ⟨found, hfound, hall⟩ := @exists_findAllFrom_append declarationPattern '\n' before ((headWords false false hkeyword hname).chars ++ after)
    (fun _ _ _ => not_fits_declaration_nil) newline_notMem_of_fits h.begins []
  have hmatch := findAllFrom_of_some (DeclarationWords.chars_ne_nil (headWords false false hkeyword hname))
    (matchAt?_head h.begins h.ends)
  have hhead := (isMarked_headMatch before).declarationHead? rfl h.code
  rw [← h.code, List.nil_append, hmatch] at hfound
  refine ⟨found.filterMap s.declarationHead?, (declarationPattern.findAllFrom (.between (before ++
    (headWords false false hkeyword hname).chars) after)).filterMap s.declarationHead?, ?_, fun head hhead => ?_⟩
  · have hall : declarationPattern.findAll s.code = _ := hfound
    rw [heads, hall, List.filterMap_append, List.filterMap_cons_some hhead]
  · obtain ⟨m, hm, hmatched⟩ := List.mem_filterMap.mp hhead
    obtain ⟨front, piece, back, hbefore, hfits, hspan⟩ := hall m hm
    rw [List.nil_append] at hfits hspan
    obtain ⟨-, d, rfl, hmarked⟩ := exists_of_fits_declaration hfits
    have hcode : s.code = front ++ (d.chars ++ (back ++ ((headWords false false hkeyword hname).chars ++ after))) := by
      rw [h.code, hbefore]
      simp only [List.append_assoc]
    obtain rfl := Option.some.inj ((hmarked.declarationHead? hspan hcode).symm.trans hmatched)
    obtain ⟨-, -, -, -, hlt⟩ := exists_sign_of_words hcode
    refine Nat.lt_of_lt_of_le hlt ?_
    simp only [DeclarationWords.head, hbefore, byteLength_append]
    omega

theorem line (h : s.Exports before d after) : s.lineOf (byteLength before) = 1 + before.count '\n' := by
  rw [lineOf, h.position, h.code, line_positionOf]

theorem isTopLevel (h : s.Exports before (headWords false false hkeyword hname) after) :
    s.isTopLevel ((headWords false false hkeyword hname).head before).start = true := by
  have hline (offset : Nat) : s.lineOf offset = (positionOf s.code offset).line := by rw [lineOf, h.position]
  have heq := @isTopLevel_eq s _ before [] hline h.code h.begins List.not_mem_nil
  rw [h.level] at heq
  exact heq

/-- The declaration is published and exported. -/
theorem addDeclaration (h : s.Exports before (headWords false false hkeyword hname) after) (hne : String.ofList name ≠ "extends")
    (hdeclared : s.declarationAt? ((headWords false false hkeyword hname).head before) = .ok (some declared)) (surface : Collection) :
    s.addDeclaration surface ((headWords false false hkeyword hname).head before) =
      .ok { (surface.publish declared.symbol).addExport
        (.named (.ofList name) (1 + before.count '\n') declared.exportKind .declarative) with locals := surface.locals ++ [declared] } := by
  have hskip : (!s.isTopLevel ((headWords false false hkeyword hname).head before).start ||
      ((headWords false false hkeyword hname).head before).name == "extends") = false := by
    rw [h.isTopLevel, Bool.not_true, Bool.false_or]
    exact beq_eq_false_iff_ne.mpr hne
  have hstart : ((headWords false false hkeyword hname).head before).start = byteLength before :=
    congrArg byteLength (List.append_nil before)
  rw [Source.addDeclaration, hskip, if_neg Bool.false_ne_true, bind_eq_of_ok hdeclared, hstart, h.line]
  rfl

/-- Unless an earlier declaration takes its place, the declaration is there behind the pass over all of them. -/
theorem presents_addDeclarations (h : s.Exports before (headWords false false hkeyword hname) after)
    (hfirst : ∀ head ∈ s.heads, head.start < byteLength before → head.name ≠ .ofList name) (hne : String.ofList name ≠ "extends")
    (hdeclared : s.declarationAt? ((headWords false false hkeyword hname).head before) = .ok (some declared))
    (hlacks : surface.snapshot.Lacks (.ofList name)) :
    Gives (fun found => found.snapshot.Presents { declared.symbol with exported := true }
      (.named (.ofList name) (1 + before.count '\n') declared.exportKind .declarative)) (s.addDeclarations surface) := by
  obtain ⟨earlier, later, hheads, hearlier⟩ := h.exists_heads
  have hadds : s.addDeclarations surface = s.heads.foldlM s.addDeclaration surface := rfl
  rw [hadds, hheads, List.foldlM_append]
  refine Gives.bind (P := fun found => found.snapshot.Lacks (.ofList name)) ?_ fun surface hlacks => ?_
  · refine gives_foldlM (fun head hhead surface hlacks => lacks_addDeclaration hlacks ?_) hlacks
    exact hfirst head (hheads ▸ List.mem_append_left _ hhead) (hearlier head hhead)
  · have hpresents := hlacks.presents (qualifiedName_declarationAt? _ _ _ hdeclared declared rfl)
      (e := .named (.ofList name) (1 + before.count '\n') declared.exportKind .declarative) rfl
    rw [List.foldlM_cons, bind_eq_of_ok (h.addDeclaration hne hdeclared surface)]
    let next : Collection := { (surface.publish declared.symbol).addExport
      (.named (.ofList name) (1 + before.count '\n') declared.exportKind .declarative) with locals := surface.locals ++ [declared] }
    have hgrows : Gives next.Grows (later.foldlM s.addDeclaration next) :=
      gives_foldlM (fun head _ found hfound => grows_addDeclaration hfound head) .refl
    exact fun found hfound => (hgrows found hfound).presents hpresents

/-- Where it is the only declaration outside all braces, nothing else is taken in. -/
theorem addDeclarations_single (h : s.Exports before (headWords false false hkeyword hname) after)
    (hsingle : (s.heads.filter fun head => s.isTopLevel head.start).length = 1) (hne : String.ofList name ≠ "extends")
    (hdeclared : s.declarationAt? ((headWords false false hkeyword hname).head before) = .ok (some declared)) (surface : Collection) :
    s.addDeclarations surface = .ok { (surface.publish declared.symbol).addExport
      (.named (.ofList name) (1 + before.count '\n') declared.exportKind .declarative) with locals := surface.locals ++ [declared] } := by
  obtain ⟨earlier, later, hheads, -⟩ := h.exists_heads
  have hadds : s.addDeclarations surface = s.heads.foldlM s.addDeclaration surface := rfl
  have hcount : (earlier.filter fun head => s.isTopLevel head.start).length +
      ((later.filter fun head => s.isTopLevel head.start).length + 1) = 1 := by
    rw [hheads, List.filter_append, List.filter_cons, if_pos h.isTopLevel, List.length_append, List.length_cons] at hsingle
    exact hsingle
  have hpassed {heads : List DeclarationHead} (hnone : (heads.filter fun head => s.isTopLevel head.start).length = 0)
      (surface : Collection) : heads.foldlM s.addDeclaration surface = .ok surface := by
    refine foldlM_eq_self fun head hhead => ?_
    have hnested := List.filter_eq_nil_iff.mp (List.length_eq_zero_iff.mp hnone) head hhead
    rw [Source.addDeclaration, Bool.eq_false_iff.mpr hnested]
    rfl
  rw [hadds, hheads, List.foldlM_append, bind_eq_of_ok (hpassed (by omega) surface), List.foldlM_cons,
    bind_eq_of_ok (h.addDeclaration hne hdeclared surface), hpassed (by omega)]

end Exports

variable {filePath text : String} {language : Language}

/-- Where no other export is found, the declarations are all that shows. -/
theorem extract_of_quiet (hquiet : ∀ pattern ∈ exportPatterns, pattern.findAll (Source.of text.toList).code = [])
    (hdeclared : (Source.of text.toList).addDeclarations
      { snapshot := { filePath, language, status := if (Source.of text.toList).isBalanced then .parsed else .incomplete } } = .ok surface) :
    extract filePath language text = .ok
      { surface.snapshot with imports := (ModuleReference.extract text).filterMap importOf? } := by
  have hdefaults : (Source.of text.toList).addDefaultExpressions surface = .ok surface := by
    rw [addDefaultExpressions, hquiet _ (by simp [exportPatterns])]
    rfl
  have hclauses : (Source.of text.toList).addExportClauses surface = .ok surface := by
    rw [addExportClauses, hquiet _ (by simp [exportPatterns])]
    rfl
  have hstars : (Source.of text.toList).addExportStars surface = surface := by
    rw [addExportStars, hquiet _ (by simp [exportPatterns])]
    rfl
  have hassigned : (Source.of text.toList).addModuleExportsAll surface = .ok surface := by
    rw [addModuleExportsAll, hquiet _ (by simp [exportPatterns])]
    rfl
  have hproperties : (Source.of text.toList).addExportsProperties surface = .ok surface := by
    rw [addExportsProperties, hquiet _ (by simp [exportPatterns])]
    rfl
  have hdefined : (Source.of text.toList).addDefinedProperties surface = surface := by
    rw [addDefinedProperties, hquiet _ (by simp [exportPatterns])]
    rfl
  unfold extract
  dsimp only
  rw [bind_eq_of_ok hdeclared, bind_eq_of_ok hdefaults, bind_eq_of_ok hclauses, hstars, bind_eq_of_ok hassigned,
    bind_eq_of_ok hproperties, hdefined]
  rfl

/-- The exported declaration shows as it is read. If it is the only one and no other export is found, then nothing else shows. -/
theorem Exports.exists_extract (h : (Source.of text.toList).Exports before (headWords false false hkeyword hname) after)
    (hadmits : (Source.of text.toList).Admits (byteLength before) (.ofList name)) (hne : String.ofList name ≠ "extends")
    (hdeclared : (Source.of text.toList).declarationAt? ((headWords false false hkeyword hname).head before) = .ok (some declared))
    (filePath : String) (language : Language) : ∃ found, extract filePath language text = .ok found ∧
      found.Presents { declared.symbol with exported := true }
        (.named (.ofList name) (1 + before.count '\n') declared.exportKind .declarative) ∧
      ((Source.of text.toList).IsSingle → found.symbols = [{ declared.symbol with exported := true }] ∧
        found.exports = [.named (.ofList name) (1 + before.count '\n') declared.exportKind .declarative]) := by
  have hnarrow : ∀ m ∈ declarationPattern.findAll (Source.of text.toList).code,
      ∀ head ∈ (Source.of text.toList).declarationHead? m, ¬ (Source.of text.toList).BreaksOff head :=
    fun m hm head hhead => hadmits.completes head (List.mem_filterMap.mpr ⟨m, hm, hhead⟩)
  obtain ⟨found, hfound, -⟩ : Succeeds _ (extract filePath language text) := succeeds_extract hnarrow
  obtain ⟨surface, last, hsurface, hgrows, hsymbols, hexports⟩ := exists_grows_of_extract hfound
  refine ⟨found, hfound, ?_, fun hsingle => ?_⟩
  · have hpresents := h.presents_addDeclarations hadmits.first hne hdeclared ⟨by simp, by simp⟩ surface hsurface
    obtain ⟨hsymbol, hexport⟩ := hgrows.presents hpresents
    exact ⟨by rwa [Snapshot.shelf, hsymbols], by rwa [hexports]⟩
  · have hexact := extract_of_quiet hsingle.quiet (h.addDeclarations_single hsingle.declares hne hdeclared
      { snapshot := { filePath, language, status := if (Source.of text.toList).isBalanced then .parsed else .incomplete } })
    obtain rfl := Except.ok.inj (hfound.symm.trans hexact)
    exact ⟨rfl, rfl⟩

end Source

/-! ## A statement among other code -/

open Lexical Assigned

/-- A script in which a statement begins a line outside all braces. -/
structure Framed (statement : List Item) where
  before : List Item
  after : List Item
  lexical : isLexical [] (before ++ (statement ++ after)) = true
  begins : ∀ c ∈ (code before).getLast?, c = '\n'
  level : braceDepth (code before) = 0

namespace Framed

variable {statement : List Item} (script : Framed statement)

def text : String := .ofList ((script.before ++ (statement ++ script.after)).flatMap Item.chars)

def source : Source := Source.of script.text.toList

/-- The offset at which the statement begins. -/
def start : Nat := byteLength (code script.before)

/-- The line on which the statement begins. -/
def line : Nat := 1 + (code script.before).count '\n'

theorem code_source : script.source.code = code script.before ++ (code statement ++ code script.after) := by
  have hcode := code_scriptOf script.lexical
  rw [code_append, code_append] at hcode
  rw [source, text, String.toList_ofList]
  exact hcode

theorem isMasked : script.source.IsMasked := isMasked_of script.text.toList

/-- A statement that begins with the words of a declaration exports it. -/
theorem exports {d : DeclarationWords} {more : List Char} (h : code statement = d.chars ++ more)
    (hmore : ∀ c ∈ (more ++ code script.after).head?, isNameChar c = false) :
    script.source.Exports (code script.before) d (more ++ code script.after) where
  code := by rw [script.code_source, h, List.append_assoc]
  position := by
    rw [source, Source.of, positionOf_codeOnly]
  begins := script.begins
  level := script.level
  ends := hmore

end Framed

end Script

end ApiImpact
