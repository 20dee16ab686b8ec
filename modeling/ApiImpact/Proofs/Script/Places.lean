import ApiImpact.Proofs.Script.Completes
import ApiImpact.Proofs.Text.Offset

/-!
# Where declarations are found

A declaration is found at the beginning of the statement that declares it, a value at the export or the assignment that it
is exported by, or at the property of the exported object. Every symbol of a script is found at such a place and tells the
line and the column of it, and the place is that of a sign of the script.
-/

namespace ApiImpact.Script

open Text Text.Pattern

namespace Source

variable {s : Source} {surface : Collection} {symbol : Symbol} {declared : Local} {head : DeclarationHead} {m : Match}
  {property : List Char} {start anchor value offset : Nat}

/-! ## Places -/

/-- A property of an object that is assigned to all exports stands at the offset, with this text. -/
inductive HasProperty (s : Source) : Nat → List Char → Prop
  | entry {m : Match} {opening closing : Nat} {list : List Char} {entry : Nat × List Char}
      (hm : m ∈ moduleExportsPattern.findAll s.code)
      (hopening : s.skipBlanks ((m.group? 1).elim m.span.stop (·.start)) = .ok opening)
      (hobject : s.hasAt opening "\x7b" = .ok true)
      (hclose : matchingClose? s.code opening = some closing)
      (hlist : s.codeBetween (opening + 1) closing = .ok list)
      (hentry : entry ∈ splitTopLevel list) :
      HasProperty s (opening + 1 + entry.1 + byteLength (entry.2.takeWhile isBlank)) (trim entry.2)

/-- What stands at the first offset exports the value that is read from the second one on. -/
inductive ExportsValue (s : Source) : Nat → Nat → Prop
  | default {m : Match} (hm : m ∈ exportDefaultPattern.findAll s.code) : ExportsValue s m.span.start m.span.stop
  | all {m : Match} {value : Nat} (hm : m ∈ moduleExportsPattern.findAll s.code)
      (hvalue : s.skipBlanks ((m.group? 1).elim m.span.stop (·.start)) = .ok value) : ExportsValue s m.span.start value
  | one {m : Match} {value : Nat} (hm : m ∈ exportsPropertyPattern.findAll s.code)
      (hvalue : s.skipBlanks ((m.group? 2).elim m.span.stop (·.start)) = .ok value) : ExportsValue s m.span.start value
  | method {start : Nat} {property : List Char} (h : s.HasProperty start property) : ExportsValue s start start
  | property {start value : Nat} {property : List Char} (h : s.HasProperty start property)
      (hvalue : s.skipBlanks (start + byteLength (property.takeWhile (· != ':')) + 1) = .ok value) :
      ExportsValue s start value

/-- The declaration is found at the offset: it begins there, or what exports it does. -/
inductive Finds (s : Source) : Local → Nat → Prop
  | declaration {m : Match} {head : DeclarationHead} {found : Local} (hm : m ∈ declarationPattern.findAll s.code)
      (hhead : s.declarationHead? m = some head) (htop : s.isTopLevel head.start = true)
      (hfound : s.declarationAt? head = .ok (some found)) : Finds s found head.start
  | function {anchor value stop : Nat} {shape : FunctionShape} (name : String) (h : s.ExportsValue anchor value)
      (hfound : s.anyFunctionAt? value = .ok (some (shape, stop))) : Finds s (s.functionLocal anchor name shape stop) anchor
  | classType {anchor value : Nat} {name : String} {found : Local} (h : s.ExportsValue anchor value)
      (hfound : s.classAt anchor name (value + "class".length) = .ok found) : Finds s found anchor

/-- The symbol is that of a declaration found at the offset, whether or not it is exported there. -/
def FindsSymbol (s : Source) (symbol : Symbol) (offset : Nat) : Prop :=
  ∃ declared, s.Finds declared offset ∧ symbol = { declared.symbol with exported := symbol.exported }

/-- The symbol is that of a declaration of the script. -/
def IsFound (s : Source) (symbol : Symbol) : Prop := ∃ offset, s.FindsSymbol symbol offset

theorem Finds.isFound (h : s.Finds declared offset) : s.IsFound declared.symbol := ⟨offset, declared, h, rfl⟩

theorem isFound_exported (symbol : Symbol) (h : s.IsFound symbol) : s.IsFound { symbol with exported := true } := by
  obtain ⟨offset, declared, hfinds, heq⟩ := h
  exact ⟨offset, declared, hfinds, by rw [heq]⟩

theorem everyFound_publish (h : surface.EverySymbol s.IsFound) (hfinds : s.Finds declared offset) :
    (surface.publish declared.symbol).EverySymbol s.IsFound :=
  h.publish (isFound_exported _ hfinds.isFound)

/-! ## Declarations and defaults -/

theorem everyFound_addDeclaration (h : surface.EverySymbol s.IsFound) (hm : m ∈ declarationPattern.findAll s.code)
    (hhead : s.declarationHead? m = some head) : Gives (Collection.EverySymbol s.IsFound) (s.addDeclaration surface head) := by
  unfold addDeclaration
  split
  · exact gives_pure h
  · rename_i hskip
    have htop : s.isTopLevel head.start = true := by
      by_contra hlow
      exact hskip (by simp [hlow])
    refine gives_bind fun found hfound => ?_
    split
    · exact gives_pure h
    · have hfinds := Finds.declaration hm hhead htop hfound
      extract_lets line exported
      have hexported : exported.EverySymbol s.IsFound := by
        dsimp only [exported]
        split_ifs
        · exact (everyFound_publish h hfinds).addExport _
        · exact (everyFound_publish h hfinds).addExport _
        · exact h
      exact gives_pure (hexported.declare hfinds.isFound)

theorem everyFound_addDefaultExpression (h : surface.EverySymbol s.IsFound) (hm : m ∈ exportDefaultPattern.findAll s.code) :
    Gives (Collection.EverySymbol s.IsFound) (s.addDefaultExpression surface m) := by
  unfold addDefaultExpression
  split_ifs
  · exact gives_pure h
  extract_lets start value line entry
  refine gives_bind fun rest _ => ?_
  extract_lets next
  have hnext (isFunction : Bool) : Gives (Collection.EverySymbol s.IsFound) (next isFunction) := by
    dsimp only [next]
    split_ifs
    · refine gives_bind fun found hfound => gives_pure ?_
      cases found with
      | none => exact h.addExport _
      | some found => exact (everyFound_publish h (.function "default" (.default hm) hfound)).addExport _
    · exact gives_bind fun found hfound => gives_pure ((everyFound_publish h (.classType (.default hm) hfound)).addExport _)
    · exact gives_pure (h.addExport _)
    · refine gives_bind fun name _ => ?_
      cases name with
      | none => exact gives_pure (h.addExport _)
      | some name => exact gives_pure ((h.refer isFound_exported _).addExport _)
  split_ifs
  · exact gives_bind fun isFunction _ => hnext isFunction
  · exact gives_bind fun shape _ => gives_bind fun isFunction _ => hnext isFunction

theorem everyFound_addExportClause (h : surface.EverySymbol s.IsFound) (m : Match) :
    Gives (Collection.EverySymbol s.IsFound) (s.addExportClause surface m) := by
  unfold addExportClause
  extract_lets opening
  split
  · exact gives_pure h
  · refine gives_bind fun after _ => gives_bind fun isFrom _ => ?_
    extract_lets next
    have hnext (module : Option String) : Gives (Collection.EverySymbol s.IsFound) (next module) := by
      refine gives_bind fun list _ => gives_pure ?_
      exact List.foldlRecOn _ _ h fun surface h entry _ => everySymbol_addClauseEntry h isFound_exported _ _ _
    split_ifs
    · exact gives_bind fun offset _ => gives_bind fun module _ => hnext module
    · exact gives_bind fun module _ => hnext module

/-! ## Assignments -/

theorem everyFound_addAssignedValue (h : surface.EverySymbol s.IsFound) (hvalue : s.ExportsValue anchor value) (name : String) :
    Gives (fun result => result.1.EverySymbol s.IsFound) (s.addAssignedValue surface value name anchor) := by
  unfold addAssignedValue
  refine gives_bind fun shape _ => ?_
  cases shape with
  | function =>
      refine gives_bind fun found hfound => ?_
      cases found with
      | none => exact gives_pure h
      | some found =>
          refine gives_bind fun isNamed _ => ?_
          extract_lets next
          have hnext (ownName : Option (List Char)) :
              Gives (fun result => result.1.EverySymbol s.IsFound) (next ownName) :=
            gives_pure (everyFound_publish h (.function _ hvalue hfound))
          split_ifs
          · exact gives_bind fun offset _ => gives_bind fun ownName _ => hnext ownName
          · exact gives_bind fun ownName _ => hnext ownName
  | classType =>
      exact gives_bind fun offset _ => gives_bind fun ownName _ => gives_bind fun found hfound =>
        gives_pure (everyFound_publish h (.classType hvalue hfound))
  | object => exact gives_pure h
  | other =>
      refine gives_bind fun referred _ => ?_
      cases referred with
      | none => exact gives_pure h
      | some referred =>
          refine gives_bind fun ends _ => ?_
          split_ifs
          · exact gives_pure (h.refer isFound_exported _)
          · exact gives_pure h

theorem everyFound_addProperty (h : surface.EverySymbol s.IsFound) (hproperty : s.HasProperty start property) :
    Gives (Collection.EverySymbol s.IsFound) (s.addProperty surface start property) := by
  unfold addProperty
  split
  · exact gives_pure h
  · refine gives_bind fun key _ => ?_
    split
    · exact gives_pure h
    · extract_lets beforeColon next
      have hnext {surface : Collection} (h : surface.EverySymbol s.IsFound) (kind : ExportKind) :
          Gives (Collection.EverySymbol s.IsFound) (pure (surface, kind) >>= next) := gives_pure (h.addExport _)
      split_ifs
      · exact gives_bind fun value hvalue =>
          (everyFound_addAssignedValue h (.property hproperty hvalue) _).bind fun result hresult => hnext hresult _
      · refine gives_bind fun found hfound => ?_
        cases found with
        | none => exact hnext h _
        | some found =>
            have hany : s.anyFunctionAt? start = .ok (some found) := bind_eq_of_ok hfound
            exact hnext (everyFound_publish h (.function _ (.method hproperty) hany)) _
      · exact hnext (h.refer isFound_exported _) _

theorem everyFound_addModuleExports (h : surface.EverySymbol s.IsFound) (hm : m ∈ moduleExportsPattern.findAll s.code) :
    Gives (Collection.EverySymbol s.IsFound) (s.addModuleExports surface m) := by
  unfold addModuleExports
  refine gives_bind fun value hvalue => gives_bind fun isObject hobject => ?_
  split_ifs with hisObject
  · unfold addProperties
    split
    · exact gives_pure h
    · rename_i closing hclose
      refine gives_bind fun list hlist => gives_foldlM (fun entry hentry surface h => ?_) h
      exact everyFound_addProperty h (.entry hm hvalue (hisObject ▸ hobject) hclose hlist hentry)
  · exact (everyFound_addAssignedValue h (.all hm hvalue) "default").bind fun result hresult => gives_pure (hresult.addExport _)

theorem everyFound_addExportsProperty (h : surface.EverySymbol s.IsFound) (hm : m ∈ exportsPropertyPattern.findAll s.code) :
    Gives (Collection.EverySymbol s.IsFound) (s.addExportsProperty surface m) := by
  unfold addExportsProperty
  split
  · exact gives_pure h
  · exact gives_bind fun value hvalue => (everyFound_addAssignedValue h (.one hm hvalue) _).bind fun result hresult =>
      gives_pure (hresult.addExport _)

/-! ## Positions -/

/-- The declaration tells the line and the column of the offset. -/
structure IsAt (s : Source) (offset : Nat) (declared : Local) : Prop where
  line_eq : declared.symbol.line = s.lineOf offset
  column_eq : declared.symbol.column = s.columnOf offset

theorem isAt_classAt (start : Nat) (name : String) (head : Nat) : Gives (s.IsAt start) (s.classAt start name head) := by
  unfold classAt
  refine gives_bind fun rest _ => ?_
  extract_lets body stop next
  have hnext (shape : ClassShape) : Gives (s.IsAt start) (next shape) := gives_pure ⟨rfl, rfl⟩
  cases body with
  | none => exact gives_bind fun shape _ => hnext shape
  | some body => exact gives_bind fun shape _ => hnext shape

/-- A class that is bound is read at its own place, but told at that of the binding. -/
theorem isAt_bindingAt (start : Nat) (name : String) (afterName : Nat) (keyword : String) :
    Gives (s.IsAt start) (s.bindingAt start name afterName keyword) := by
  unfold bindingAt
  refine gives_bind fun sign _ => gives_bind fun equals _ => gives_bind fun twice _ => gives_bind fun value _ => ?_
  extract_lets short
  split_ifs
  · exact gives_bind fun rest _ => gives_pure ⟨rfl, rfl⟩
  · refine gives_bind fun shape _ => ?_
    cases shape with
    | function =>
        refine gives_bind fun found _ => ?_
        cases found with
        | none => exact gives_pure ⟨rfl, rfl⟩
        | some found => exact gives_pure ⟨rfl, rfl⟩
    | classType => exact gives_bind fun found _ => gives_pure ⟨rfl, rfl⟩
    | object => exact gives_pure ⟨rfl, rfl⟩
    | other => exact gives_pure ⟨rfl, rfl⟩

theorem isAt_declarationAt? (head : DeclarationHead) :
    Gives (fun found => ∀ declared ∈ found, s.IsAt head.start declared) (s.declarationAt? head) := by
  have hsome {declared : Local} (h : s.IsAt head.start declared) : ∀ other ∈ some declared, s.IsAt head.start other := by
    rintro _ ⟨⟩
    exact h
  unfold declarationAt?
  split
  · refine gives_bind fun found _ => gives_pure fun declared hdeclared => ?_
    obtain ⟨entry, -, rfl⟩ := Option.map_eq_some_iff.mp hdeclared
    exact ⟨rfl, rfl⟩
  · exact (isAt_classAt _ _ _).bind fun declared h => gives_pure (hsome h)
  · exact (isAt_bindingAt _ _ _ _).bind fun declared h => gives_pure (hsome h)

theorem Finds.isAt (h : s.Finds declared offset) : s.IsAt offset declared := by
  cases h with
  | declaration hm hhead htop hfound => exact isAt_declarationAt? _ _ hfound declared rfl
  | function name hvalue hfound => exact ⟨rfl, rfl⟩
  | classType hvalue hfound => exact isAt_classAt _ _ _ _ hfound

/-! ## Signs -/

theorem HasProperty.hasSign (h : s.HasProperty start property) : s.HasSign start := by
  obtain @⟨m, opening, closing, list, entry, hm, hopening, hobject, hclose, hlist, hentry⟩ := h
  obtain ⟨-, hcut⟩ := (isPlaced_of_mem_findAll (by simp [exportPatterns]) hm).group_elim 1
  obtain ⟨opening', hopening', -, hcut⟩ := succeeds_skipBlanks hcut
  obtain rfl : opening' = opening := Except.ok.inj (hopening'.symm.trans hopening)
  obtain ⟨isObject, hisObject, hword⟩ := succeeds_hasAt hcut "\x7b"
  obtain ⟨front, rest, hcode, rfl⟩ := hword (Except.ok.inj (hisObject.symm.trans hobject))
  rw [byteLength_brace, List.singleton_append] at hcode
  rw [hcode] at hclose
  obtain ⟨inner, after, rfl, rfl⟩ := exists_of_matchingClose? hclose
  obtain rfl : list = inner := Except.ok.inj (hlist.symm.trans (codeBetween_bracket hcode rfl))
  exact (exists_property hcode hentry).2

theorem ExportsValue.hasSign (h : s.ExportsValue anchor value) : s.HasSign anchor := by
  cases h with
  | default hm => exact (isPlaced_of_mem_findAll (by simp [exportPatterns]) hm).start
  | all hm _ => exact (isPlaced_of_mem_findAll (by simp [exportPatterns]) hm).start
  | one hm _ => exact (isPlaced_of_mem_findAll (by simp [exportPatterns]) hm).start
  | method hproperty => exact hproperty.hasSign
  | property hproperty _ => exact hproperty.hasSign

/-- Declarations are found at signs. -/
theorem Finds.hasSign (h : s.Finds declared offset) : s.HasSign offset := by
  cases h with
  | declaration hm hhead htop hfound =>
      obtain ⟨before, d, after, hcode, -, hwritten⟩ := exists_words_of_mem_findAll hm
      obtain rfl := Option.some.inj (hwritten.symm.trans hhead)
      obtain ⟨c, hstart, hblank, -⟩ := exists_sign_of_words hcode
      exact ⟨c, hstart, hblank⟩
  | function name hvalue hfound => exact hvalue.hasSign
  | classType hvalue hfound => exact hvalue.hasSign

/-- A sign of the code is a sign of the script, at the same offset. -/
theorem exists_sign_of_hasSign {script : List Char} (h : (of script).HasSign offset) :
    ∃ front c rest, script = front ++ c :: rest ∧ offset = byteLength front ∧ isBlank c = false := by
  obtain ⟨c, ⟨front, rest, hcode, rfl⟩, hc⟩ := h
  have hspace : c ≠ ' ' := by
    rintro rfl
    exact absurd hc (by decide)
  have hbreak : c ≠ '\n' := by
    rintro rfl
    exact absurd hc (by decide)
  obtain ⟨shadedFront, shadedRest, hshades, rfl, -⟩ := exists_of_hide_code hspace hbreak hcode
  refine ⟨shadedFront.map Prod.fst, c, shadedRest.map Prod.fst, ?_, byteLength_hide _ _, hc⟩
  rw [← map_fst_shades script, hshades, List.map_append, List.map_cons]

end Source

/-! ## The whole extraction -/

/-- Every symbol of a script is that of a declaration found in it. -/
theorem isFound_of_extract {filePath text : String} {language : Language} {snapshot : Snapshot}
    (h : extract filePath language text = .ok snapshot) :
    ∀ symbol ∈ snapshot.symbols, (Source.of text.toList).IsFound symbol := by
  have hgives : Gives (fun snapshot => ∀ symbol ∈ snapshot.symbols, (Source.of text.toList).IsFound symbol)
      (extract filePath language text) := by
    unfold extract
    extract_lets s empty
    have hempty : Collection.EverySymbol s.IsFound { snapshot := empty } := ⟨by simp [empty], by simp⟩
    refine Gives.bind (P := Collection.EverySymbol s.IsFound) ?_ fun surface h => ?_
    · refine gives_foldlM (fun head hmem surface h => ?_) hempty
      obtain ⟨m, hm, hhead⟩ := List.mem_filterMap.mp hmem
      exact Source.everyFound_addDeclaration h hm hhead
    refine Gives.bind (P := Collection.EverySymbol s.IsFound) ?_ fun surface h => ?_
    · exact gives_foldlM (fun m hm surface h => Source.everyFound_addDefaultExpression h hm) h
    refine Gives.bind (P := Collection.EverySymbol s.IsFound) ?_ fun surface h => ?_
    · exact gives_foldlM (fun m _ surface h => Source.everyFound_addExportClause h m) h
    have hstars : (s.addExportStars surface).EverySymbol s.IsFound :=
      List.foldlRecOn _ _ h fun surface h m _ => Source.everySymbol_addExportStar h m
    refine Gives.bind (P := Collection.EverySymbol s.IsFound) ?_ fun surface h => ?_
    · exact gives_foldlM (fun m hm surface h => Source.everyFound_addModuleExports h hm) hstars
    refine Gives.bind (P := Collection.EverySymbol s.IsFound) ?_ fun surface h => ?_
    · exact gives_foldlM (fun m hm surface h => Source.everyFound_addExportsProperty h hm) h
    have hdefined : (s.addDefinedProperties surface).EverySymbol s.IsFound :=
      List.foldlRecOn _ _ h fun surface h m _ => Source.everySymbol_addDefinedProperty h m
    exact gives_pure hdefined.published
  exact hgives snapshot h

end ApiImpact.Script

namespace ApiImpact.Snapshot

open Text

theorem isFound_of_capture {settings : Settings} {filePath text : String} {manifest : Option String} {s : Snapshot}
    (huntyped : (Path.ofString filePath).IsUntyped) (h : capture settings filePath text manifest = .ok s) :
    ∀ symbol ∈ s.symbols, (Script.Source.of text.toList).IsFound symbol := by
  obtain ⟨surface, hsymbols, -, ⟨hnone, -⟩ | hsurface⟩ := exists_extract_of_capture huntyped h
  · simp [hsymbols, hnone]
  · exact hsymbols ▸ Script.isFound_of_extract hsurface

/-- The line of an offset is counted by the line breaks in front of it, its column from the last of them on, and looking
both up in a table of lines never leaves the table; together they tell the offset. So every symbol of a file without types
tells the one offset at which its declaration was found, and a sign of the file stands there. -/
theorem positions_exact :
    (∀ (text : List Char) (offset : Nat),
      lineOf text offset = 1 + ((bytes text).take offset).count breakByte ∧
      (∃ start, start + columnOf text offset = offset ∧
        IsGreatest {start | start = 0 ∨ ∃ i < offset, (bytes text)[i]? = some breakByte ∧ start = i + 1} start) ∧
      lookUp? (lineStarts text) offset = some ⟨lineOf text offset, columnOf text offset⟩ ∧
      ∀ offset', positionOf text offset' = positionOf text offset → offset' = offset) ∧
    ∀ (settings : Settings) (filePath text : String) (manifest : Option String) (s : Snapshot),
      (Path.ofString filePath).IsUntyped → capture settings filePath text manifest = .ok s →
      ∀ symbol ∈ s.symbols, ∃ offset, (Script.Source.of text.toList).FindsSymbol symbol offset ∧
        (∃ front c rest, text.toList = front ++ c :: rest ∧ offset = byteLength front ∧ isBlank c = false) ∧
        ∀ offset', positionOf text.toList offset' = ⟨symbol.line, symbol.column⟩ ↔ offset' = offset := by
  refine ⟨fun text offset => ⟨line_advance_bytes ⟨1, 0⟩ text offset, exists_isGreatest_column text offset,
    lookUp?_lineStarts text offset, fun offset' heq => positionOf_injective text heq⟩, ?_⟩
  intro settings filePath text manifest s huntyped hcapture symbol hsymbol
  obtain ⟨offset, declared, hfinds, heq⟩ := isFound_of_capture huntyped hcapture symbol hsymbol
  refine ⟨offset, ⟨declared, hfinds, heq⟩, Script.Source.exists_sign_of_hasSign hfinds.hasSign, fun offset' => ?_⟩
  have hposition : (⟨symbol.line, symbol.column⟩ : Position) = positionOf text.toList offset := by
    rw [heq]
    exact congrArg₂ Position.mk hfinds.isAt.line_eq hfinds.isAt.column_eq
  rw [hposition]
  exact (positionOf_injective text.toList).eq_iff

/-- A script with a class behind a wide character, and a function that is a property of the exported object. -/
theorem positions_exact_of_method :
    let text := "'\u00e9'\n  export class C \x7b\x7d\nmodule.exports = \x7b f() \x7b\x7d \x7d;\n"
    ∃ s, capture {} "m.js" text none = .ok s ∧
      s.symbols.map (fun symbol => (symbol.name, symbol.line, symbol.column)) = [("C", 2, 2), ("f", 3, 19)] ∧
      ∀ symbol ∈ s.symbols, ∃ offset, (Script.Source.of text.toList).FindsSymbol symbol offset ∧
        ∀ offset', positionOf text.toList offset' = ⟨symbol.line, symbol.column⟩ ↔ offset' = offset := by
  intro text
  have hshown : (capture {} "m.js" text none).toOption.map
      (fun s => s.symbols.map fun symbol => (symbol.name, symbol.line, symbol.column)) = some [("C", 2, 2), ("f", 3, 19)] := by
    decide +kernel
  cases hcapture : capture {} "m.js" text none with
  | error cause => simp [hcapture, Except.toOption] at hshown
  | ok s =>
      have hshown : s.symbols.map (fun symbol => (symbol.name, symbol.line, symbol.column)) = [("C", 2, 2), ("f", 3, 19)] := by
        simpa [hcapture, Except.toOption] using hshown
      refine ⟨s, rfl, hshown, fun symbol hsymbol => ?_⟩
      obtain ⟨offset, hfinds, -, hback⟩ := positions_exact.2 {} "m.js" text none s (by decide) hcapture symbol hsymbol
      exact ⟨offset, hfinds, hback⟩

end ApiImpact.Snapshot
