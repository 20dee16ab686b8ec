import ApiImpact.Proofs.Script.Completes

/-!
# A script is read inside its text

A snapshot of a script is built unless a declaration breaks off, which is told by the text. In all other cases whatever
is cut out of the script, by any pass over it, lies inside it and begins and ends with a character.
-/

namespace ApiImpact

open Text Text.Pattern

namespace Script

/-- The patterns that are searched for in a script. -/
def scriptPatterns : List Pattern :=
  [declarationPattern, methodPattern, fieldPattern] ++ exportPatterns
    ++ [ModuleReference.staticPattern, ModuleReference.bareImportPattern, ModuleReference.reexportPattern,
      ModuleReference.dynamicPattern, ModuleReference.requirePattern, esmPattern, commonJsPattern]

/-- The patterns for what is named by a literal, each with the group of the mark at which that opens. -/
def literalGroups : List (Pattern × Nat) :=
  [(exportStarPattern, 2), (definePropertyPattern, 1), (ModuleReference.staticPattern, 3),
    (ModuleReference.bareImportPattern, 1), (ModuleReference.reexportPattern, 3), (ModuleReference.dynamicPattern, 1),
    (ModuleReference.requirePattern, 2)]

theorem leastLength_scriptPatterns : ∀ pattern ∈ scriptPatterns, 0 < pattern.leastLength := by decide

/-- The mark at which a literal opens is one sign of a single byte. -/
theorem exists_mark {entry : Pattern × Nat} (hentry : entry ∈ literalGroups) : 0 < entry.1.leastLength ∧
    ∃ p, entry.1.recordedBy entry.2 = [one p] ∧ ∀ c, p c = true → c ∈ ['\'', '"', '\x60'] := by
  have hquote (c : Char) (hc : ModuleReference.isQuote c = true) : c ∈ ['\'', '"', '\x60'] := by
    rw [ModuleReference.isQuote, Bool.or_eq_true, beq_iff_eq, beq_iff_eq] at hc
    rcases hc with rfl | rfl <;> simp
  have htick (c : Char) (hc : (ModuleReference.isQuote c || c == '\x60') = true) : c ∈ ['\'', '"', '\x60'] := by
    rw [Bool.or_eq_true, beq_iff_eq] at hc
    rcases hc with hc | rfl
    · exact hquote c hc
    · simp
  simp only [literalGroups, List.mem_cons, List.not_mem_nil, or_false] at hentry
  rcases hentry with rfl | rfl | rfl | rfl | rfl | rfl | rfl
  · exact ⟨by decide, _, rfl, hquote⟩
  · exact ⟨by decide, _, rfl, hquote⟩
  · exact ⟨by decide, _, rfl, hquote⟩
  · exact ⟨by decide, _, rfl, hquote⟩
  · exact ⟨by decide, _, rfl, hquote⟩
  · exact ⟨by decide, _, rfl, htick⟩
  · exact ⟨by decide, _, rfl, hquote⟩

namespace Source

variable {s : Source} {offset : Nat}

/-- From every surface whose symbols all show something of the text, the step goes on to such a surface. -/
def Proceeds (step : Collection → Except InsideCharacter Collection) : Prop :=
  ∀ surface, surface.EverySymbol Symbol.IsSigned → Succeeds (Collection.EverySymbol Symbol.IsSigned) (step surface)

/-- There is a mark at `offset`, and what stands between it and the next of its kind is a piece of the text. -/
def ReadsLiteral (s : Source) (offset : Nat) : Prop :=
  ∃ mark rest, dropBytes? s.code offset = some (mark :: rest) ∧ (mark.utf8Size = 1 →
    ∀ width, findOffset? (· == mark) rest = some width → (slice? s.text (offset + 1) (offset + 1 + width)).isSome)

/-- Whatever is cut out of the script lies inside it and begins and ends with a character. -/
structure StaysInside (s : Source) : Prop where
  lines : ∀ offset, 1 ≤ s.lineOf offset
  spans : ∀ pattern ∈ scriptPatterns, ∀ text, ∀ m ∈ pattern.findAll text, IsPieceOf text m.span ∧ m.span.start < m.span.stop ∧
    ∀ entry ∈ m.groups, IsPieceOf text entry.2
  skips : ∀ offset, s.IsCut offset → Succeeds (fun next => s.HasSign next ∨ next = byteLength s.code) (s.skipBlanks offset)
  marks : ∀ entry ∈ literalGroups, ∀ m ∈ entry.1.findAll s.code, ∀ span ∈ m.group? entry.2,
    span.stop = span.start + 1 ∧ s.HasSign span.start
  literals : ∀ offset, s.HasSign offset → s.ReadsLiteral offset
  asyncs : ∀ code, byteLength (skipAsync code) ≤ byteLength code
  declarations : ∀ m ∈ declarationPattern.findAll s.code, ∀ head ∈ s.declarationHead? m, Proceeds (s.addDeclaration · head)
  defaults : ∀ m ∈ exportDefaultPattern.findAll s.code, Proceeds (s.addDefaultExpression · m)
  clauses : ∀ m ∈ exportClausePattern.findAll s.code, Proceeds (s.addExportClause · m)
  moduleExports : ∀ m ∈ moduleExportsPattern.findAll s.code, Proceeds (s.addModuleExports · m)
  properties : ∀ opening closing list, s.HasWord opening ['\x7b'] → matchingClose? s.code opening = some closing →
    s.codeBetween (opening + 1) closing = .ok list → ∀ entry ∈ splitTopLevel list,
      s.HasSign (opening + 1 + entry.1 + byteLength (entry.2.takeWhile isBlank)) ∧
        Proceeds (s.addProperty · (opening + 1 + entry.1 + byteLength (entry.2.takeWhile isBlank)) (trim entry.2))
  exportsProperties : ∀ m ∈ exportsPropertyPattern.findAll s.code, Proceeds (s.addExportsProperty · m)

theorem succeeds_skipBlanks_sign (h : s.IsCut offset) :
    Succeeds (fun next => s.HasSign next ∨ next = byteLength s.code) (s.skipBlanks offset) := by
  obtain ⟨front, rest, hcode, rfl⟩ := h
  rw [List.nil_append] at hcode
  have hsplit : s.code = (front ++ rest.takeWhile isBlank) ++ rest.dropWhile isBlank := by
    rw [hcode, List.append_assoc, List.takeWhile_append_dropWhile]
  refine ⟨byteLength (front ++ rest.takeWhile isBlank), ?_, ?_⟩
  · rw [skipBlanks, codeFrom_byteLength hcode, byteLength_append]
    rfl
  · cases hrest : rest.dropWhile isBlank with
    | nil =>
        rw [hrest, List.append_nil] at hsplit
        exact .inr (congrArg byteLength hsplit.symm)
    | cons c behind =>
        have hhead := List.head?_dropWhile_not isBlank rest
        rw [hrest] at hhead hsplit
        exact .inl ⟨c, ⟨_, behind, hsplit, rfl⟩, by simpa using hhead⟩

/-- The marks around a literal stand at the same places in the text. -/
theorem IsMasked.readsLiteral (hs : s.IsMasked) (h : s.HasSign offset) : s.ReadsLiteral offset := by
  obtain ⟨mark, ⟨front, rest, hcode, rfl⟩, hmark⟩ := h
  have hspace : mark ≠ ' ' := by
    rintro rfl
    exact absurd hmark (by decide)
  refine ⟨mark, rest, by rw [hcode]; exact dropBytes?_byteLength front (mark :: rest), fun hsize width hwidth => ?_⟩
  obtain ⟨contents, c, after, rfl, rfl, hc, -⟩ := exists_of_findOffset? hwidth
  obtain rfl : c = mark := by simpa using hc
  obtain ⟨front₁, rest₁, htext₁, hlength₁⟩ := hs.sign front c (contents ++ c :: after) hcode hspace
  obtain ⟨front₂, rest₂, htext₂, hlength₂⟩ := hs.sign (front ++ c :: contents) c after (by simp [hcode]) hspace
  have hstart : byteLength (front₁ ++ [c]) = byteLength front + 1 := by simp [hlength₁, hsize]
  have hstop : byteLength front₂ = byteLength front + 1 + byteLength contents := by
    simp [hlength₂, hsize, Nat.add_assoc]
  obtain ⟨piece, -, -, hslice⟩ := exists_slice? (htext₁.trans (List.append_cons _ _ _)) htext₂ (by omega)
  rw [hstart, hstop] at hslice
  exact Option.isSome_of_eq_some hslice

/-- A script whose declarations do not break off is read inside its text. -/
theorem staysInside_of {script : List Char} (hnarrow : ∀ m ∈ declarationPattern.findAll (of script).code,
    ∀ head ∈ (of script).declarationHead? m, ¬ (of script).BreaksOff head) : (of script).StaysInside where
  lines := fun offset => le_line_advance ⟨1, 0⟩ script offset
  spans := fun pattern hpattern text m hm => by
    obtain ⟨hspan, hlt, hgroups⟩ := isPieceOf_of_mem_findAll (leastLength_scriptPatterns pattern hpattern) hm
    exact ⟨hspan, hlt, fun entry hentry => (hgroups entry hentry).2⟩
  skips := fun offset h => succeeds_skipBlanks_sign h
  marks := fun entry hentry m hm span hspan => by
    have hmarks : ∀ c ∈ ['\'', '"', '\x60'], c.utf8Size = 1 ∧ isBlank c = false := by decide
    obtain ⟨hlength, p, hrecorded, hp⟩ := exists_mark hentry
    obtain ⟨front, c, rest, hcode, rfl, hc⟩ := exists_char_of_group? hlength hrecorded hm hspan
    obtain ⟨hsize, hblank⟩ := hmarks c (hp c hc)
    exact ⟨by simp [hsize], c, ⟨front, rest, hcode, rfl⟩, hblank⟩
  literals := fun offset h => (isMasked_of script).readsLiteral h
  asyncs := fun code => by
    obtain ⟨lead, hlead⟩ := exists_skipAsync code
    have hlength := congrArg byteLength hlead
    rw [byteLength_append] at hlength
    omega
  declarations := fun m hm head hhead surface h => by
    obtain ⟨before, d, after, hcode, -, hwritten⟩ := exists_words_of_mem_findAll hm
    obtain rfl := Option.some.inj (hwritten.symm.trans hhead)
    exact succeeds_addDeclaration (isMasked_of script) h hcode (hnarrow m hm _ hhead)
  defaults := fun m hm surface h =>
    succeeds_addDefaultExpression (isMasked_of script) h (isPlaced_of_mem_findAll (by simp [exportPatterns]) hm)
  clauses := fun m hm surface h => succeeds_addExportClause h hm
  moduleExports := fun m hm surface h =>
    succeeds_addModuleExports (isMasked_of script) h (isPlaced_of_mem_findAll (by simp [exportPatterns]) hm)
  properties := fun opening closing list hopening hclose hlist entry hentry => by
    obtain ⟨front, rest, hcode, rfl⟩ := hopening
    rw [List.singleton_append] at hcode
    rw [hcode] at hclose
    obtain ⟨inner, after, rfl, rfl⟩ := exists_of_matchingClose? hclose
    obtain rfl := Except.ok.inj ((codeBetween_bracket hcode rfl).symm.trans hlist)
    obtain ⟨hproperty, hsign⟩ := exists_property hcode hentry
    exact ⟨hsign, fun surface h => succeeds_addProperty (isMasked_of script) h hproperty hsign⟩
  exportsProperties := fun m hm surface h =>
    succeeds_addExportsProperty (isMasked_of script) h (isPlaced_of_mem_findAll (by simp [exportPatterns]) hm)

end Source

end Script

namespace Snapshot

variable {settings : Settings} {filePath text : String}

/-- No snapshot of a script within the size limit is built just if one of its declarations breaks off: it binds a name at
top level before a character of more than one byte. In all other cases there is one, and the script is read inside its
text. -/
theorem capture_fails_iff (hpath : (Path.ofString filePath).IsUntyped) (hsize : text.utf8ByteSize ≤ settings.maxFileBytes)
    (manifest : Option String) :
    ((∃ cause, capture settings filePath text manifest = .error cause) ↔
      ∃ m ∈ Script.declarationPattern.findAll (Script.Source.of text.toList).code,
        ∃ head ∈ (Script.Source.of text.toList).declarationHead? m, (Script.Source.of text.toList).BreaksOff head) ∧
    ((∀ m ∈ Script.declarationPattern.findAll (Script.Source.of text.toList).code,
        ∀ head ∈ (Script.Source.of text.toList).declarationHead? m, ¬ (Script.Source.of text.toList).BreaksOff head) →
      Succeeds (fun snapshot => ∀ symbol ∈ snapshot.symbols, symbol.IsSigned) (capture settings filePath text manifest) ∧
        (Script.Source.of text.toList).StaysInside) := by
  have hsurface : surfaceOf settings filePath text ((Language.ofPath? (.ofString filePath)).getD .javaScript) =
      Script.extract filePath ((Language.ofPath? (.ofString filePath)).getD .javaScript) text := by
    rw [surfaceOf, if_neg (Nat.not_lt_of_le hsize), hpath.isTyped_eq_false, if_neg Bool.false_ne_true]
  have hsucceeds (hnarrow : ∀ m ∈ Script.declarationPattern.findAll (Script.Source.of text.toList).code,
      ∀ head ∈ (Script.Source.of text.toList).declarationHead? m, ¬ (Script.Source.of text.toList).BreaksOff head) :
      Succeeds (fun snapshot => ∀ symbol ∈ snapshot.symbols, symbol.IsSigned) (capture settings filePath text manifest) := by
    have hextract := @Script.succeeds_extract filePath text ((Language.ofPath? (.ofString filePath)).getD .javaScript) hnarrow
    rw [← hsurface] at hextract
    exact hextract.bind fun snapshot h => succeeds_pure h
  refine ⟨⟨?_, ?_⟩, fun hnarrow => ⟨hsucceeds hnarrow, Script.Source.staysInside_of hnarrow⟩⟩
  · rintro ⟨cause, hcause⟩
    by_contra hnone
    push Not at hnone
    obtain ⟨snapshot, hsnapshot, -⟩ := hsucceeds hnone
    exact absurd (hcause.symm.trans hsnapshot) (by simp)
  · rintro ⟨m, hm, head, hhead, hbreaks⟩
    obtain ⟨cause, hcause⟩ := @Script.exists_extract_eq_error filePath text
      ((Language.ofPath? (.ofString filePath)).getD .javaScript) m head hm hhead hbreaks
    rw [← hsurface] at hcause
    exact ⟨cause, bind_eq_error hcause⟩

/-- A name stops before a sign of three bytes, where the sign of an assignment is expected; in a literal a character of
more than one byte does no harm. -/
theorem capture_fails_of_wide_sign :
    (∃ cause, capture {} "m.js" "const price\u20ac = 1;\n" none = .error cause) ∧
      Script.Source.StaysInside (.of "const cafe = 'caf\u00e9';\n".toList) := by
  have hpath : (Path.ofString "m.js").IsUntyped := by decide +kernel
  constructor
  · have hsize : "const price\u20ac = 1;\n".utf8ByteSize ≤ ({} : Settings).maxFileBytes := by decide +kernel
    refine (capture_fails_iff hpath hsize none).1.mpr ?_
    have hheads : (Script.declarationPattern.findAll (Script.Source.of "const price\u20ac = 1;\n".toList).code).any (fun m =>
        ((Script.Source.of "const price\u20ac = 1;\n".toList).declarationHead? m).any fun head =>
          head.keyword == "const" && head.start == 0 && head.name == "price" && head.afterName == 11) = true := by decide +kernel
    obtain ⟨m, hm, hhead⟩ := List.any_eq_true.mp hheads
    obtain ⟨head, hhead, hread⟩ := (Option.any_eq_true _ _).mp hhead
    simp only [Bool.and_eq_true, beq_iff_eq] at hread
    obtain ⟨⟨⟨hkeyword, hstart⟩, hname⟩, hafter⟩ := hread
    refine ⟨m, hm, head, hhead, ?_, ?_, ?_, ?_⟩
    · simp [hkeyword]
    · rw [hstart]
      decide +kernel
    · simp [hname]
    · rw [hafter]
      exact ⟨"const price".toList, [], '\u20ac', " = 1;\n".toList, by decide +kernel, by decide +kernel, by simp, by decide +kernel,
        by decide +kernel⟩
  · have hsize : "const cafe = 'caf\u00e9';\n".utf8ByteSize ≤ ({} : Settings).maxFileBytes := by decide +kernel
    obtain ⟨hiff, hinside⟩ := capture_fails_iff hpath hsize none
    obtain ⟨s, hs⟩ : ∃ s, capture {} "m.js" "const cafe = 'caf\u00e9';\n" none = .ok s := isOk_iff.mp (by decide +kernel)
    refine (hinside fun m hm head hhead hbreaks => ?_).2
    obtain ⟨cause, hcause⟩ := hiff.mpr ⟨m, hm, head, hhead, hbreaks⟩
    exact absurd (hcause.symm.trans hs) (by simp)

end Snapshot

end ApiImpact
