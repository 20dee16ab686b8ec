import ApiImpact.Capture
import ApiImpact.Proofs.Script.BreakOff
import ApiImpact.Proofs.Script.Comments

/-!
# Where the extraction from a script completes

The passes behind the declarations read a script only where a match begins or ends, behind signs and words that stand
there, and between brackets. So they complete on every script, and the extraction breaks off only at a declaration.
-/

namespace ApiImpact.Script

open Text Text.Pattern

namespace Source

variable {s : Source} {surface : Collection} {Q : Symbol → Prop} {pattern : Pattern} {m : Match} {anchor value : Nat} {name : String}

/-! ## Matches -/

theorem IsPieceOf.isCut {span : Span} (h : IsPieceOf s.code span) : s.IsCut span.start ∧ s.IsCut span.stop := by
  obtain ⟨front, piece, rest, hcode, rfl⟩ := h
  exact ⟨isCut_byteLength hcode, isCut_byteLength (by rw [hcode, List.append_assoc])⟩

/-- A match for an export begins with a sign, and what it tells of values lies behind that. -/
structure IsPlaced (s : Source) (m : Match) : Prop where
  start : s.HasSign m.span.start
  stop : s.IsCut m.span.stop
  lt : m.span.start < m.span.stop
  group : ∀ index, ∀ span ∈ m.group? index, m.span.start ≤ span.start ∧ s.IsCut span.start

theorem mem_of_lookup {index : Nat} {span : Span} {groups : Groups} (h : span ∈ groups.lookup index) : (index, span) ∈ groups := by
  obtain ⟨front, back, rfl, -⟩ := List.lookup_eq_some_iff.mp h
  simp

theorem leastLength_exportPatterns : ∀ pattern ∈ exportPatterns, 0 < pattern.leastLength := by decide

theorem isPlaced_of_mem_findAll (hpattern : pattern ∈ exportPatterns) (hm : m ∈ pattern.findAll s.code) : s.IsPlaced m := by
  have hlength := leastLength_exportPatterns pattern hpattern
  obtain ⟨hspan, hlt, hgroups⟩ := isPieceOf_of_mem_findAll hlength hm
  obtain ⟨before, piece, after, hcode, hfits, hsame⟩ := exists_fits_of_mem_findAll (not_fits_nil hlength) hm
  obtain ⟨-, word, sign, more, rfl, hsignal⟩ := exists_signal_of_fits hpattern hfits
  obtain ⟨c, rest, rfl, hc⟩ := hsignal.head
  refine ⟨⟨c, ⟨before, rest ++ sign :: more ++ after, by simp [hcode], by rw [hsame]⟩, ?_⟩, (IsPieceOf.isCut hspan).2, hlt,
    fun index span hgroup => ?_⟩
  · have hblanks : ∀ c ∈ ['e', 'm', 'O'], isBlank c = false := by decide
    exact hblanks c hc
  · obtain ⟨hle, hpiece⟩ := hgroups (index, span) (mem_of_lookup hgroup)
    exact ⟨hle, (IsPieceOf.isCut hpiece).1⟩

/-- A published symbol shows what the declared one does. -/
theorem isSigned_exported (symbol : Symbol) (h : symbol.IsSigned) : { symbol with exported := true : Symbol }.IsSigned := h

theorem everySymbol_publish {symbol : Symbol} (h : surface.EverySymbol Symbol.IsSigned) (hsymbol : symbol.IsSigned) :
    (surface.publish symbol).EverySymbol Symbol.IsSigned :=
  h.publish (isSigned_exported symbol hsymbol)

theorem isSigned_functionLocal (hs : s.IsMasked) {start stop : Nat} (hstart : s.HasSign start) (hstop : s.EndsBehind start stop)
    (name : String) (shape : FunctionShape) : (s.functionLocal start name shape stop).symbol.IsSigned :=
  signature_ne hs hstart hstop

/-! ## Declarative exports -/

theorem succeeds_addDefaultExpression (hs : s.IsMasked) (h : surface.EverySymbol Symbol.IsSigned) (hm : s.IsPlaced m) :
    Succeeds (Collection.EverySymbol Symbol.IsSigned) (s.addDefaultExpression surface m) := by
  unfold addDefaultExpression
  split_ifs
  · exact succeeds_pure h
  extract_lets start value line entry
  refine (succeeds_codeFrom hm.stop).bind fun rest hrest => ?_
  extract_lets next
  have hnext (isFunction : Bool) : Succeeds (Collection.EverySymbol Symbol.IsSigned) (next isFunction) := by
    dsimp only [next]
    split_ifs with hfunction hclass hobject
    · refine (succeeds_anyFunctionAt? hs hm.stop).bind fun found hfound => succeeds_pure ?_
      cases found with
      | none => exact h.addExport _
      | some found =>
          have hends := (hfound found rfl).mono (Nat.le_of_lt hm.lt)
          exact (everySymbol_publish h (isSigned_functionLocal hs hm.start hends _ _)).addExport _
    · obtain ⟨rest', rfl⟩ := List.isPrefixOf_iff_prefix.mp hclass
      obtain ⟨front, hcode, hvalue⟩ := hrest
      have hbehind := @HasWord.isCut_behind _ _ "class".toList ⟨front, rest', hcode, hvalue⟩
      refine (succeeds_classAt hs hm.start hbehind (Nat.lt_of_lt_of_le hm.lt (Nat.le_add_right _ _)) _).bind
        fun found hfound => succeeds_pure ?_
      exact (everySymbol_publish h hfound).addExport _
    · exact succeeds_pure (h.addExport _)
    · refine (succeeds_identifierAt? hm.stop).bind fun name _ => ?_
      cases name with
      | none => exact succeeds_pure (h.addExport _)
      | some name => exact succeeds_pure ((h.refer isSigned_exported _).addExport _)
  split_ifs
  · exact (succeeds_of_eq rfl).bind fun isFunction _ => hnext isFunction
  · refine (succeeds_valueShapeAt hs hm.stop).bind fun shape _ => ?_
    exact (succeeds_of_eq rfl).bind fun isFunction _ => hnext isFunction

theorem everySymbol_addClauseEntry (h : surface.EverySymbol Q) (hexported : ∀ symbol, Q symbol → Q { symbol with exported := true })
    (line : Nat) (module : Option String) (entry : List Char) : (addClauseEntry line module surface entry).EverySymbol Q := by
  unfold addClauseEntry
  split
  · exact h
  · split_ifs
    · exact h.addExport _
    · exact (h.refer hexported _).addExport _

theorem byteLength_from : "from".length = byteLength "from".toList := by decide

theorem succeeds_addExportClause (h : surface.EverySymbol Symbol.IsSigned) (hm : m ∈ exportClausePattern.findAll s.code) :
    Succeeds (Collection.EverySymbol Symbol.IsSigned) (s.addExportClause surface m) := by
  obtain ⟨before, piece, after, hcode, hfits, hspan⟩ :=
    exists_fits_of_mem_findAll (fun _ _ _ => not_fits_exportClause_nil) hm
  obtain ⟨gap, rfl, -, -⟩ := exists_of_fits_exportClause hfits
  have hopening : m.span.stop - 1 = byteLength (before ++ ("export".toList ++ gap)) := by
    have hsplit : before ++ ("export".toList ++ (gap ++ ['\x7b'])) = (before ++ ("export".toList ++ gap)) ++ ['\x7b'] := by
      simp only [List.append_assoc]
    rw [hspan, hsplit, byteLength_append _ ['\x7b']]
    rfl
  have hsplit : s.code = (before ++ ("export".toList ++ gap)) ++ '\x7b' :: after := by simp [hcode]
  unfold addExportClause
  extract_lets opening
  rw [show opening = byteLength (before ++ ("export".toList ++ gap)) from hopening]
  split
  · exact succeeds_pure h
  · rename_i closing hclose
    rw [hsplit] at hclose
    obtain ⟨inner, after', rfl, rfl⟩ := exists_of_matchingClose? hclose
    have hclosed : s.IsCut (byteLength (before ++ ("export".toList ++ gap) ++ '\x7b' :: inner) + 1) :=
      @HasWord.isCut_behind _ _ ['\x7d'] ⟨_, after', by simp [hsplit], rfl⟩
    refine (succeeds_skipBlanks hclosed).bind fun offset hoffset => ?_
    refine (succeeds_hasAt hoffset.2 "from").bind fun isFrom hfrom => ?_
    extract_lets next
    have hnext (module : Option String) : Succeeds (Collection.EverySymbol Symbol.IsSigned) (next module) := by
      refine (succeeds_of_eq (codeBetween_bracket hsplit rfl)).bind fun list _ => succeeds_pure ?_
      exact List.foldlRecOn _ _ h fun surface h entry _ => everySymbol_addClauseEntry h isSigned_exported _ _ _
    split_ifs with hisFrom
    · have hbehind := (hfrom hisFrom).isCut_behind
      rw [← byteLength_from] at hbehind
      refine (succeeds_skipBlanks hbehind).bind fun offset _ => ?_
      exact (succeeds_of_eq rfl).bind fun module _ => hnext module
    · exact (succeeds_of_eq rfl).bind fun module _ => hnext module

theorem everySymbol_addExportStar (h : surface.EverySymbol Q) (m : Match) : (s.addExportStar surface m).EverySymbol Q := by
  unfold addExportStar
  split
  · exact h
  · exact h.addExport _

/-! ## Assignments -/

theorem succeeds_endsExpression (h : s.IsCut value) : Succeeds (fun _ => True) (s.endsExpression value) := by
  unfold endsExpression
  refine (succeeds_codeFrom h).bind fun rest _ => ?_
  split <;> exact succeeds_pure trivial

theorem byteLength_function : "function".length = byteLength "function".toList := by decide

theorem succeeds_addAssignedValue (hs : s.IsMasked) (h : surface.EverySymbol Symbol.IsSigned) (hvalue : s.IsCut value)
    (hanchor : s.HasSign anchor) (hle : anchor ≤ value) (name : String) :
    Succeeds (fun result => result.1.EverySymbol Symbol.IsSigned) (s.addAssignedValue surface value name anchor) := by
  unfold addAssignedValue
  refine (succeeds_valueShapeAt hs hvalue).bind fun shape hshape => ?_
  cases shape with
  | function =>
      refine (succeeds_anyFunctionAt? hs hvalue).bind fun found hfound => ?_
      cases found with
      | none => exact succeeds_pure h
      | some found =>
          have hends := (hfound found rfl).mono hle
          refine (succeeds_hasAt hvalue "function").bind fun isNamed hnamed => ?_
          extract_lets next
          have hnext (ownName : Option (List Char)) :
              Succeeds (fun result => result.1.EverySymbol Symbol.IsSigned) (next ownName) :=
            succeeds_pure (everySymbol_publish h (isSigned_functionLocal hs hanchor hends _ _))
          split_ifs with hisNamed
          · have hbehind := (hnamed hisNamed).isCut_behind
            rw [← byteLength_function] at hbehind
            refine (succeeds_skipBlanks hbehind).bind fun offset hoffset => ?_
            exact (succeeds_identifierAt? hoffset.2).bind fun ownName _ => hnext ownName
          · exact (succeeds_of_eq rfl).bind fun ownName _ => hnext ownName
  | classType =>
      have hbehind := (hshape rfl).isCut_behind
      rw [← byteLength_class] at hbehind
      have hlt : anchor < value + "class".length := Nat.lt_of_le_of_lt hle (Nat.lt_add_of_pos_right (by decide))
      refine (succeeds_skipBlanks hbehind).bind fun offset hoffset => ?_
      refine (succeeds_identifierAt? hoffset.2).bind fun ownName _ => ?_
      exact (succeeds_classAt hs hanchor hbehind hlt _).bind fun found hfound => succeeds_pure (everySymbol_publish h hfound)
  | object => exact succeeds_pure h
  | other =>
      refine (succeeds_identifierAt? hvalue).bind fun referred hreferred => ?_
      cases referred with
      | none => exact succeeds_pure h
      | some referred =>
          refine (succeeds_endsExpression (hreferred referred rfl).2.isCut_behind).bind fun ends _ => ?_
          split_ifs
          · exact succeeds_pure (h.refer isSigned_exported _)
          · exact succeeds_pure h

theorem succeeds_propertyKey? {property : List Char} (h : s.HasWord value property) :
    Succeeds (fun _ => True) (s.propertyKey? value property) := by
  unfold propertyKey?
  split_ifs with hquote hasync
  · exact ⟨_, rfl, trivial⟩
  · refine (succeeds_identifierAt? h.isCut).bind fun key _ => ?_
    cases key with
    | some key => exact succeeds_pure trivial
    | none =>
        obtain ⟨front, rest, hcode, rfl⟩ := h
        obtain ⟨property, rfl⟩ := List.isPrefixOf_iff_prefix.mp hasync
        have hbehind := @HasWord.isCut_behind _ _ "async".toList ⟨front, property ++ rest, by rw [hcode, List.append_assoc], rfl⟩
        rw [← byteLength_async] at hbehind
        refine (succeeds_skipBlanks hbehind).bind fun offset hoffset => ?_
        exact (succeeds_identifierAt? hoffset.2).bind fun key _ => succeeds_pure trivial
  · refine (succeeds_identifierAt? h.isCut).bind fun key _ => ?_
    cases key <;> exact succeeds_pure trivial

theorem succeeds_addProperty (hs : s.IsMasked) (h : surface.EverySymbol Symbol.IsSigned) {property : List Char}
    (hproperty : s.HasWord value property) (hsign : s.HasSign value) :
    Succeeds (Collection.EverySymbol Symbol.IsSigned) (s.addProperty surface value property) := by
  unfold addProperty
  split
  · exact succeeds_pure h
  · refine (succeeds_propertyKey? hproperty).bind fun key _ => ?_
    split
    · exact succeeds_pure h
    · extract_lets beforeColon next
      have hnext {surface : Collection} (h : surface.EverySymbol Symbol.IsSigned) (kind : ExportKind) :
          Succeeds (Collection.EverySymbol Symbol.IsSigned) (pure (surface, kind) >>= next) :=
        succeeds_pure (h.addExport _)
      split_ifs with hcolon hparenthesis
      · have hcut : s.IsCut (value + byteLength beforeColon + 1) := by
          obtain ⟨front, rest, hcode, rfl⟩ := hproperty
          obtain ⟨tail, htail⟩ := eq_sign_of_takeWhile (Nat.ne_of_lt hcolon.1)
          have hsplit : s.code = (front ++ beforeColon) ++ ':' :: (tail ++ rest) := by
            rw [List.append_assoc, ← List.cons_append, ← List.append_assoc beforeColon]
            exact hcode.trans (congrArg (fun property => front ++ (property ++ rest)) htail)
          have hword : s.HasWord (byteLength (front ++ beforeColon)) [':'] :=
            ⟨front ++ beforeColon, tail ++ rest, hsplit, rfl⟩
          rw [← byteLength_append]
          exact hword.isCut_behind
        refine (succeeds_skipBlanks hcut).bind fun offset hoffset => ?_
        have hle : value ≤ offset := Nat.le_trans (by omega) hoffset.1
        refine (succeeds_addAssignedValue hs h hoffset.2 hsign hle _).bind fun result hresult => ?_
        exact hnext hresult _
      · refine (succeeds_functionAt? hs hproperty.isCut).bind fun found hfound => ?_
        cases found with
        | none => exact hnext h _
        | some found => exact hnext (everySymbol_publish h (isSigned_functionLocal hs hsign (hfound found rfl) _ _)) _
      · exact hnext (h.refer isSigned_exported _) _

theorem byteLength_brace : "\x7b".toList = ['\x7b'] := by decide

/-- A property of the object that opens behind `front` stands behind the blanks of its piece. -/
theorem exists_property {front inner after : List Char} {entry : Nat × List Char}
    (hcode : s.code = front ++ '\x7b' :: (inner ++ '\x7d' :: after)) (hentry : entry ∈ splitTopLevel inner) :
    s.HasWord (byteLength front + 1 + entry.1 + byteLength (entry.2.takeWhile isBlank)) (trim entry.2) ∧
      s.HasSign (byteLength front + 1 + entry.1 + byteLength (entry.2.takeWhile isBlank)) := by
  obtain ⟨hblank, before, behind, rfl, hoffset⟩ := exists_of_mem_splitTopLevel hentry
  obtain ⟨c, word, back, htrim, hc, hpiece⟩ := exists_trim hblank
  have hplace : byteLength front + 1 + entry.1 + byteLength (entry.2.takeWhile isBlank) =
      byteLength (front ++ '\x7b' :: (before ++ entry.2.takeWhile isBlank)) := by
    simp only [hoffset, byteLength_append, byteLength_cons, Nat.add_assoc]
    rfl
  have hsplit : s.code = (front ++ '\x7b' :: (before ++ entry.2.takeWhile isBlank)) ++
      (trim entry.2 ++ (back ++ (behind ++ '\x7d' :: after))) := by
    rw [hcode]
    nth_rewrite 1 [hpiece]
    simp only [List.append_assoc, List.cons_append]
  have hproperty : s.HasWord (byteLength front + 1 + entry.1 + byteLength (entry.2.takeWhile isBlank)) (trim entry.2) :=
    ⟨_, _, hsplit, hplace⟩
  exact ⟨hproperty, c, (htrim ▸ hproperty).head, hc⟩

theorem succeeds_addProperties (hs : s.IsMasked) (h : surface.EverySymbol Symbol.IsSigned) {opening : Nat}
    (hopening : s.HasWord opening ['\x7b']) :
    Succeeds (Collection.EverySymbol Symbol.IsSigned) (s.addProperties surface opening) := by
  obtain ⟨front, rest, hcode, rfl⟩ := hopening
  rw [List.singleton_append] at hcode
  unfold addProperties
  split
  · exact succeeds_pure h
  · rename_i closing hclose
    rw [hcode] at hclose
    obtain ⟨inner, after, rfl, rfl⟩ := exists_of_matchingClose? hclose
    refine (succeeds_of_eq (codeBetween_bracket hcode rfl)).bind fun list hlist => ?_
    subst hlist
    refine succeeds_foldlM (fun entry hentry surface h => ?_) h
    obtain ⟨hproperty, hsign⟩ := exists_property hcode hentry
    exact succeeds_addProperty hs h hproperty hsign

theorem IsPlaced.group_elim (hm : s.IsPlaced m) (index : Nat) :
    m.span.start ≤ (m.group? index).elim m.span.stop (·.start) ∧ s.IsCut ((m.group? index).elim m.span.stop (·.start)) := by
  cases hgroup : m.group? index with
  | none => exact ⟨Nat.le_of_lt hm.lt, hm.stop⟩
  | some span => exact hm.group index span hgroup

theorem succeeds_addModuleExports (hs : s.IsMasked) (h : surface.EverySymbol Symbol.IsSigned) (hm : s.IsPlaced m) :
    Succeeds (Collection.EverySymbol Symbol.IsSigned) (s.addModuleExports surface m) := by
  unfold addModuleExports
  obtain ⟨hle, hcut⟩ := hm.group_elim 1
  refine (succeeds_skipBlanks hcut).bind fun value hvalue => ?_
  refine (succeeds_hasAt hvalue.2 "\x7b").bind fun isObject hobject => ?_
  split_ifs with hisObject
  · exact succeeds_addProperties hs h (byteLength_brace ▸ hobject hisObject)
  · refine (succeeds_addAssignedValue hs h hvalue.2 hm.start (Nat.le_trans hle hvalue.1) _).bind fun result hresult => ?_
    exact succeeds_pure (hresult.addExport _)

theorem succeeds_addExportsProperty (hs : s.IsMasked) (h : surface.EverySymbol Symbol.IsSigned) (hm : s.IsPlaced m) :
    Succeeds (Collection.EverySymbol Symbol.IsSigned) (s.addExportsProperty surface m) := by
  unfold addExportsProperty
  split
  · exact succeeds_pure h
  · extract_lets name line
    obtain ⟨hle, hcut⟩ := hm.group_elim 2
    refine (succeeds_skipBlanks hcut).bind fun value hvalue => ?_
    refine (succeeds_addAssignedValue hs h hvalue.2 hm.start (Nat.le_trans hle hvalue.1) _).bind fun result hresult => ?_
    exact succeeds_pure (hresult.addExport _)

theorem everySymbol_addDefinedProperty (h : surface.EverySymbol Q) (m : Match) :
    (s.addDefinedProperty surface m).EverySymbol Q := by
  unfold addDefinedProperty
  split
  · exact h
  · dsimp only
    split_ifs
    · exact h
    · exact h.addExport _
    · exact h.addExport _

end Source

/-! ## The whole extraction -/

variable {filePath text : String} {language : Language}

/-- A script is taken in as a whole unless a declaration breaks off. -/
theorem succeeds_extract (hnarrow : ∀ m ∈ declarationPattern.findAll (Source.of text.toList).code,
    ∀ head ∈ (Source.of text.toList).declarationHead? m, ¬ (Source.of text.toList).BreaksOff head) :
    Succeeds (fun snapshot => ∀ symbol ∈ snapshot.symbols, symbol.IsSigned) (extract filePath language text) := by
  have hs : (Source.of text.toList).IsMasked := Source.isMasked_of text.toList
  have hempty (snapshot : Snapshot) (h : snapshot.symbols = []) :
      Collection.EverySymbol Symbol.IsSigned { snapshot := snapshot } := ⟨by simp [h], by simp⟩
  unfold extract
  extract_lets s empty
  refine (Source.succeeds_addDeclarations hs (hempty empty rfl) hnarrow).bind fun surface h => ?_
  refine (succeeds_foldlM (fun m hm surface h => Source.succeeds_addDefaultExpression hs h
    (Source.isPlaced_of_mem_findAll (by simp [exportPatterns]) hm)) h).bind fun surface h => ?_
  refine (succeeds_foldlM (fun m hm surface h => Source.succeeds_addExportClause h hm) h).bind fun surface h => ?_
  have hstars : (s.addExportStars surface).EverySymbol Symbol.IsSigned :=
    List.foldlRecOn _ _ h fun surface h m _ => Source.everySymbol_addExportStar h m
  refine (succeeds_foldlM (fun m hm surface h => Source.succeeds_addModuleExports hs h
    (Source.isPlaced_of_mem_findAll (by simp [exportPatterns]) hm)) hstars).bind fun surface h => ?_
  refine (succeeds_foldlM (fun m hm surface h => Source.succeeds_addExportsProperty hs h
    (Source.isPlaced_of_mem_findAll (by simp [exportPatterns]) hm)) h).bind fun surface h => ?_
  have hdefined : (s.addDefinedProperties surface).EverySymbol Symbol.IsSigned :=
    List.foldlRecOn _ _ h fun surface h m _ => Source.everySymbol_addDefinedProperty h m
  exact succeeds_pure hdefined.published

theorem exists_extract_eq_error {m : Match} {head : DeclarationHead}
    (hm : m ∈ declarationPattern.findAll (Source.of text.toList).code)
    (hhead : (Source.of text.toList).declarationHead? m = some head) (h : (Source.of text.toList).BreaksOff head) :
    ∃ cause, extract filePath language text = .error cause := by
  obtain ⟨cause, hcause⟩ := Source.exists_addDeclarations_eq_error hm hhead h
    { snapshot := { filePath, language, status := if (Source.of text.toList).isBalanced then .parsed else .incomplete } }
  exact ⟨cause, bind_eq_error hcause⟩

end ApiImpact.Script
