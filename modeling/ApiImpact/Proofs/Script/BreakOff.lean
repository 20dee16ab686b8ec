import ApiImpact.Proofs.Script.Cuts
import ApiImpact.Proofs.Script.Declaration
import ApiImpact.Proofs.Surface.Contents

/-!
# Where the extraction from a script breaks off

Apart from one place, every offset at which a script is read is one where a character ends and the next begins. The
exception is what stands behind the name of a binding: one byte of it is passed over as if it were the sign of an
assignment, even if it is a longer character.
-/

namespace ApiImpact.Script

open Text Text.Pattern

namespace Source

variable {s : Source} {front rest blanks : List Char} {c : Char} {offset start : Nat} {name keyword : String}

/-! ## Bindings -/

/-- Behind `offset` and blanks there is a character of more than one byte. -/
def WideBehind (s : Source) (offset : Nat) : Prop :=
  ∃ front blanks c rest, s.code = front ++ (blanks ++ c :: rest) ∧ offset = byteLength front ∧
    (∀ d ∈ blanks, isBlank d = true) ∧ isBlank c = false ∧ 1 < c.utf8Size

/-- Nothing can be read inside a character. -/
theorem codeFrom_inside (h : s.code = front ++ c :: rest) (hwide : 1 < c.utf8Size) :
    s.codeFrom (byteLength front + 1) = .error ⟨byteLength front + 1⟩ := by
  have hnone : dropBytes? s.code (byteLength front + 1) = none := by
    rw [Option.eq_none_iff_forall_ne_some]
    intro behind hbehind
    obtain ⟨front', hsplit, hlength⟩ := exists_of_dropBytes? hbehind
    rw [h] at hsplit
    rcases List.append_eq_append_iff.mp hsplit with ⟨more, rfl, hmore⟩ | ⟨more, rfl, -⟩
    · rw [byteLength_append, Nat.add_left_cancel_iff] at hlength
      cases more with
      | nil => cases hlength
      | cons d more =>
          obtain ⟨rfl, -⟩ := List.cons.inj hmore
          rw [byteLength_cons] at hlength
          omega
    · rw [byteLength_append] at hlength
      omega
  have hlt : ¬ byteLength s.code ≤ byteLength front + 1 := by
    simp only [h, byteLength_append, byteLength_cons]
    omega
  rw [codeFrom, if_neg hlt, hnone]

theorem exists_bindingAt_eq_error (h : s.WideBehind offset) (start : Nat) (name keyword : String) :
    ∃ cause, s.bindingAt start name offset keyword = .error cause := by
  obtain ⟨front, blanks, c, rest, hcode, rfl, hblanks, hc, hwide⟩ := h
  have hsign : s.skipBlanks (byteLength front) = .ok (byteLength (front ++ blanks)) := by
    rw [skipBlanks, codeFrom_byteLength hcode, byteLength_append]
    have htake : (blanks ++ c :: rest).takeWhile isBlank = blanks := takeWhile_append hblanks (by simpa using hc)
    exact congrArg (fun run => Except.ok (byteLength front + byteLength run)) htake
  rw [← List.append_assoc] at hcode
  have hvalue : s.skipBlanks (byteLength (front ++ blanks) + 1) = .error ⟨byteLength (front ++ blanks) + 1⟩ :=
    bind_eq_error (codeFrom_inside hcode hwide)
  obtain ⟨equals, hequals, -⟩ := succeeds_hasAt (isCut_byteLength hcode) "="
  obtain ⟨twice, htwice, -⟩ := succeeds_hasAt (isCut_byteLength hcode) "=="
  refine ⟨⟨byteLength (front ++ blanks) + 1⟩, ?_⟩
  rw [bindingAt, bind_eq_of_ok hsign, bind_eq_of_ok hequals, bind_eq_of_ok htwice]
  exact bind_eq_error hvalue

theorem succeeds_skipBlanks_narrow (h : s.IsCut offset) (hnarrow : ¬ s.WideBehind offset) :
    Succeeds (fun sign => offset ≤ sign ∧ s.IsCut sign ∧ ∀ c, s.HasWord sign [c] → c.utf8Size = 1) (s.skipBlanks offset) := by
  obtain ⟨front, rest, hcode, rfl⟩ := h
  rw [List.nil_append] at hcode
  have hsplit : s.code = (front ++ rest.takeWhile isBlank) ++ rest.dropWhile isBlank := by
    rw [hcode, List.append_assoc, List.takeWhile_append_dropWhile]
  refine ⟨byteLength (front ++ rest.takeWhile isBlank), ?_, by simp, isCut_byteLength hsplit, ?_⟩
  · rw [skipBlanks, codeFrom_byteLength hcode, byteLength_append]
    rfl
  · rintro c ⟨front', rest', hcode', hlength⟩
    obtain ⟨-, hdrop⟩ := append_inj_of_byteLength (hsplit.symm.trans hcode') hlength
    have hc : isBlank c = false := by
      have hhead := List.head?_dropWhile_not isBlank rest
      rw [hdrop] at hhead
      simpa using hhead
    have hbehind : s.code = front ++ (rest.takeWhile isBlank ++ c :: rest') := by
      rw [hsplit, hdrop, List.append_assoc]
      rfl
    have hwide : ¬ 1 < c.utf8Size := fun hwide =>
      hnarrow ⟨front, rest.takeWhile isBlank, c, rest', hbehind, rfl, fun d hd => List.mem_takeWhile_imp hd, hc, hwide⟩
    have hpos := c.utf8Size_pos
    omega

theorem succeeds_behind_sign (h : s.IsCut offset) (hnarrow : ∀ c, s.HasWord offset [c] → c.utf8Size = 1) :
    Succeeds (fun value => offset < value ∧ (s.HasWord offset ['='] → s.IsCut value)) (s.skipBlanks (offset + 1)) := by
  obtain ⟨front, rest, hcode, rfl⟩ := h
  cases rest with
  | nil =>
      have hend : byteLength s.code ≤ byteLength front + 1 := by
        rw [hcode]
        simp
      refine ⟨byteLength front + 1, ?_, Nat.lt_succ_self _, ?_⟩
      · rw [skipBlanks, codeFrom, if_pos hend]
        rfl
      · rintro ⟨front', rest', hcode', hlength⟩
        have hsame := congrArg byteLength (hcode.symm.trans hcode')
        simp [hlength] at hsame
        exact absurd hsame.1 (by decide)
  | cons c rest =>
      have hc := hnarrow c ⟨front, rest, hcode, rfl⟩
      have hcut : s.IsCut (byteLength front + 1) := by
        have hbehind := @HasWord.isCut_behind _ _ [c] ⟨front, rest, hcode, rfl⟩
        simpa [hc] using hbehind
      exact (succeeds_skipBlanks hcut).mono fun value hvalue => ⟨hvalue.1, fun _ => hvalue.2⟩

/-- A statement that begins with a sign other than `;` ends behind that sign, at its own end or that of the text. -/
theorem IsMasked.endsBehind_statement (hs : s.IsMasked) (hstart : s.HasWord start [c]) (hc : isBlank c = false)
    (hsemicolon : c ≠ ';') (hcode : s.code = front ++ rest) (hfront : start = byteLength front) :
    s.EndsBehind start ((findOffset? (fun c => c == ';' || c == '\n') rest).elim (byteLength s.text) (start + ·)) := by
  cases hwidth : findOffset? (fun c => c == ';' || c == '\n') rest with
  | none => exact hs.endsBehind_length ⟨c, hstart, hc⟩
  | some width =>
      obtain ⟨head, d, tail, rfl, rfl, hd, -⟩ := exists_of_findOffset? hwidth
      have hword : s.HasWord (byteLength (front ++ head)) [d] := ⟨front ++ head, tail, by simp [hcode], rfl⟩
      have hends : d = ';' ∨ d = '\n' := by simpa using hd
      have hdspace : d ≠ ' ' := by rcases hends with rfl | rfl <;> decide
      rw [Option.elim, hfront, ← byteLength_append]
      refine hs.endsBehind hword hdspace ?_
      cases head with
      | nil =>
          obtain ⟨front', rest', hcode', hlength⟩ := hstart
          obtain ⟨-, hsame⟩ := append_inj_of_byteLength (hcode.symm.trans hcode') (hfront.symm.trans hlength)
          obtain rfl : d = c := (List.cons.inj hsame).1
          rcases hends with rfl | rfl
          · exact absurd rfl hsemicolon
          · exact absurd hc (by decide)
      | cons e head =>
          have he := e.utf8Size_pos
          simp only [byteLength_append, byteLength_cons]
          omega

theorem bindingText_ne (keyword name : String) : s!"{keyword} {name}" ≠ "" := by
  intro hempty
  have hlength := congrArg String.length hempty
  simp at hlength
  exact absurd hlength.1.2 (by decide)

theorem succeeds_bindingAt (hs : s.IsMasked) (hstart : s.HasWord start [c]) (hc : isBlank c = false) (hsemicolon : c ≠ ';')
    (hcut : s.IsCut offset) (hlt : start < offset) (hnarrow : ¬ s.WideBehind offset) (name keyword : String) :
    Succeeds (fun found => found.symbol.IsSigned) (s.bindingAt start name offset keyword) := by
  have hsigned : s.HasSign start := ⟨c, hstart, hc⟩
  have hshort : s!"{keyword} {name}" ≠ "" := bindingText_ne keyword name
  unfold bindingAt
  refine (succeeds_skipBlanks_narrow hcut hnarrow).bind fun sign hsign => ?_
  refine (succeeds_hasAt hsign.2.1 "=").bind fun equals hequals' => ?_
  refine (succeeds_hasAt hsign.2.1 "==").bind fun twice _ => ?_
  extract_lets hasValue
  refine (succeeds_behind_sign hsign.2.1 hsign.2.2).bind fun value hvalue => ?_
  extract_lets
  split_ifs with hno
  · refine (succeeds_codeFrom hstart.isCut).bind fun rest hrest => ?_
    obtain ⟨front, hcode, hfront⟩ := hrest
    exact succeeds_pure (signature_ne hs hsigned (hs.endsBehind_statement hstart hc hsemicolon hcode hfront))
  · have hequals : equals = true := by
      by_contra hequals
      exact hno (by simp [hasValue, hequals])
    have hcut : s.IsCut value := hvalue.2 (hequals' hequals)
    have hle : start ≤ value := by
      have hle := hsign.1
      have hlt' := hvalue.1
      omega
    refine (succeeds_valueShapeAt hs hcut).bind fun shape hshape => ?_
    cases shape with
    | function =>
        refine (succeeds_anyFunctionAt? hs hcut).bind fun found hfound => ?_
        cases found with
        | none => exact succeeds_pure hshort
        | some entry => exact succeeds_pure (signature_ne hs hsigned ((hfound entry rfl).mono hle))
    | classType =>
        have hword : s.HasWord value ('c' :: "lass".toList) := hshape rfl
        have hbehind := (hshape rfl).isCut_behind
        rw [← byteLength_class] at hbehind
        have hsignValue : s.HasSign value := ⟨'c', hword.head, by decide⟩
        exact (succeeds_classAt hs hsignValue hbehind (Nat.lt_add_of_pos_right (by decide)) name).bind fun found hfound =>
          succeeds_pure hfound
    | object => exact succeeds_pure hshort
    | other => exact succeeds_pure hshort

/-! ## Declarations -/

/-- The declaration at top level binds a name before a character of more than one byte. -/
structure BreaksOff (s : Source) (head : DeclarationHead) : Prop where
  keyword : head.keyword ∈ ["const", "let", "var"]
  topLevel : s.isTopLevel head.start = true
  name : head.name ≠ "extends"
  wide : s.WideBehind head.afterName

variable {d : DeclarationWords} {before after : List Char} {surface : Collection} {head : DeclarationHead}

/-- A declaration begins with a letter. -/
theorem exists_sign_of_words (hcode : s.code = before ++ (d.chars ++ after)) : ∃ c, s.HasWord (d.head before).start [c] ∧
    isBlank c = false ∧ c ≠ ';' ∧ (d.head before).start < (d.head before).afterName := by
  have hwords : ∀ word ∈ "export" :: "async" :: "function" :: plainKeywords, word.toList ≠ [] ∧
      ∀ c ∈ word.toList, isBlank c = false ∧ c ≠ ';' := by decide
  obtain ⟨word, hmem, rest, hchars⟩ := d.exists_word
  obtain ⟨hne, hplain⟩ := hwords word hmem
  obtain ⟨c, more, hword⟩ := List.exists_cons_of_ne_nil hne
  obtain ⟨hblank, hsemicolon⟩ := hplain c (by simp [hword])
  rw [hword] at hchars
  have hc := c.utf8Size_pos
  refine ⟨c, ⟨before ++ d.indent, more ++ rest ++ after, by simp [hcode, hchars], rfl⟩, hblank, hsemicolon, ?_⟩
  simp only [DeclarationWords.head, hchars, byteLength_append, List.cons_append, byteLength_cons]
  omega

theorem succeeds_declarationAt? (hs : s.IsMasked) (hcode : s.code = before ++ (d.chars ++ after))
    (hnarrow : d.keyword ∈ ["const", "let", "var"] → ¬ s.WideBehind (d.head before).afterName) :
    Succeeds (fun found => ∀ declared ∈ found, declared.symbol.IsSigned) (s.declarationAt? (d.head before)) := by
  obtain ⟨c, hstart, hblank, hsemicolon, hlt⟩ := exists_sign_of_words hcode
  have hsigned : s.HasSign (d.head before).start := ⟨c, hstart, hblank⟩
  have hcut : s.IsCut (d.head before).afterName := isCut_byteLength (by rw [hcode, List.append_assoc])
  have hsome {declared : Local} (h : declared.symbol.IsSigned) : ∀ other ∈ some declared, other.symbol.IsSigned := by
    rintro _ ⟨⟩
    exact h
  unfold declarationAt?
  split
  · refine (succeeds_functionAt? hs hcut).bind fun found hfound => succeeds_pure fun declared hdeclared => ?_
    obtain ⟨entry, hentry, rfl⟩ := Option.map_eq_some_iff.mp hdeclared
    exact signature_ne hs hsigned ((hfound entry hentry).mono (Nat.le_of_lt hlt))
  · exact (succeeds_classAt hs hsigned hcut hlt _).bind fun declared h => succeeds_pure (hsome h)
  · rename_i hfunction hclass
    have hkeyword : d.keyword ∈ ["const", "let", "var"] := by
      have hmem := d.behind_eq.mem
      simp only [plainKeywords, List.mem_cons, List.not_mem_nil, or_false] at hmem ⊢
      rcases hmem with h | h | h
      · exact absurd h hfunction
      · exact absurd h hclass
      · exact h
    exact (succeeds_bindingAt hs hstart hblank hsemicolon hcut hlt (hnarrow hkeyword) _ _).bind fun declared h =>
      succeeds_pure (hsome h)

theorem succeeds_addDeclaration (hs : s.IsMasked) (h : surface.EverySymbol Symbol.IsSigned)
    (hcode : s.code = before ++ (d.chars ++ after)) (hnarrow : ¬ s.BreaksOff (d.head before)) :
    Succeeds (Collection.EverySymbol Symbol.IsSigned) (s.addDeclaration surface (d.head before)) := by
  unfold addDeclaration
  split
  · exact succeeds_pure h
  · rename_i hskip
    obtain ⟨htop, hname⟩ : s.isTopLevel (d.head before).start = true ∧ (d.head before).name ≠ "extends" := by
      simpa using hskip
    refine (succeeds_declarationAt? hs hcode fun hkeyword hwide => hnarrow ⟨hkeyword, htop, hname, hwide⟩).bind
      fun found hfound => ?_
    split
    · exact succeeds_pure h
    · rename_i declared
      have hsigned := hfound declared rfl
      extract_lets line exported
      have hexported : exported.EverySymbol Symbol.IsSigned := by
        dsimp only [exported]
        split_ifs
        · exact (h.publish hsigned).addExport _
        · exact (h.publish hsigned).addExport _
        · exact h
      exact succeeds_pure (hexported.declare hsigned)

theorem exists_addDeclaration_eq_error (h : s.BreaksOff head) (surface : Collection) :
    ∃ cause, s.addDeclaration surface head = .error cause := by
  obtain ⟨cause, hcause⟩ := exists_bindingAt_eq_error h.wide head.start head.name head.keyword
  have hdeclaration : s.declarationAt? head = .error cause := by
    have hkeyword := h.keyword
    simp only [List.mem_cons, List.not_mem_nil, or_false] at hkeyword
    unfold declarationAt?
    split
    · rename_i hfunction
      rw [hfunction] at hkeyword
      exact absurd hkeyword (by decide)
    · rename_i hclass
      rw [hclass] at hkeyword
      exact absurd hkeyword (by decide)
    · exact bind_eq_error hcause
  have hskip : (!s.isTopLevel head.start || head.name == "extends") = false := by simp [h.topLevel, h.name]
  refine ⟨cause, ?_⟩
  rw [addDeclaration, hskip, if_neg Bool.false_ne_true]
  exact bind_eq_error hdeclaration

/-- The declarations are all taken in unless one of them breaks off. -/
theorem succeeds_addDeclarations (hs : s.IsMasked) (h : surface.EverySymbol Symbol.IsSigned)
    (hnarrow : ∀ m ∈ declarationPattern.findAll s.code, ∀ head ∈ s.declarationHead? m, ¬ s.BreaksOff head) :
    Succeeds (Collection.EverySymbol Symbol.IsSigned) (s.addDeclarations surface) := by
  refine succeeds_foldlM (fun head hhead surface h => ?_) h
  obtain ⟨m, hm, hmatched⟩ := List.mem_filterMap.mp hhead
  obtain ⟨before, d, after, hcode, -, hwritten⟩ := exists_words_of_mem_findAll hm
  obtain rfl := Option.some.inj (hwritten.symm.trans hmatched)
  exact succeeds_addDeclaration hs h hcode (hnarrow m hm _ hmatched)

theorem exists_addDeclarations_eq_error {m : Match} (hm : m ∈ declarationPattern.findAll s.code)
    (hhead : s.declarationHead? m = some head) (h : s.BreaksOff head) (surface : Collection) :
    ∃ cause, s.addDeclarations surface = .error cause :=
  exists_foldlM_eq_error (List.mem_filterMap.mpr ⟨m, hm, hhead⟩) (exists_addDeclaration_eq_error h) surface

end Source

end ApiImpact.Script
