import ApiImpact.Proofs.Result
import ApiImpact.Proofs.Surface.Contents
import ApiImpact.Script.Exports

/-!
# What the passes over a script add

Every pass adds exports of one style. Export clauses and stars alone take exports from another module, and stars
alone stand for everything of it.
-/

namespace ApiImpact.Script

open Text

variable {P : Export → Prop}

namespace Source

variable {s : Source} {surface : Collection}

/-! ## Values -/

theorem isRegular_functionLocal (s : Source) (start : Nat) (name : String) (shape : FunctionShape) (stop : Nat) :
    (s.functionLocal start name shape stop).IsRegular := ⟨rfl, nofun⟩

theorem isRegular_classAt (s : Source) (start : Nat) (name : String) (head : Nat) :
    Gives Local.IsRegular (s.classAt start name head) := by
  unfold classAt
  refine gives_bind fun rest _ => ?_
  extract_lets body stop next
  have hnext (shape : ClassShape) : Gives Local.IsRegular (next shape) := gives_pure ⟨rfl, nofun⟩
  cases body with
  | none => exact gives_bind fun shape _ => hnext shape
  | some body => exact gives_bind fun shape _ => hnext shape

theorem isRegular_bindingAt (s : Source) (start : Nat) (name : String) (afterName : Nat) (keyword : String) :
    Gives Local.IsRegular (s.bindingAt start name afterName keyword) := by
  have hvariable (signature : String) {kind : ExportKind} (hkind : kind ≠ .star) :
      (s.variableLocal start name signature kind).IsRegular := ⟨rfl, hkind⟩
  unfold bindingAt
  refine gives_bind fun sign _ => gives_bind fun equals _ => gives_bind fun twice _ => gives_bind fun value _ => ?_
  extract_lets short
  split_ifs
  · exact gives_bind fun rest _ => gives_pure (hvariable _ nofun)
  · refine gives_bind fun shape _ => ?_
    cases shape with
    | function =>
        refine gives_bind fun found _ => ?_
        cases found with
        | none => exact gives_pure (hvariable _ nofun)
        | some found => exact gives_pure (isRegular_functionLocal ..)
    | classType =>
        exact (isRegular_classAt _ _ _ _).bind fun found hfound => gives_pure ⟨hfound.name_eq, hfound.single⟩
    | object => exact gives_pure (hvariable _ nofun)
    | other => exact gives_pure (hvariable _ nofun)

theorem isRegular_declarationAt? (s : Source) (head : DeclarationHead) :
    Gives (fun found => ∀ declared ∈ found, declared.IsRegular) (s.declarationAt? head) := by
  have hsome {declared : Local} (h : declared.IsRegular) : ∀ other ∈ some declared, other.IsRegular := by
    rintro _ ⟨⟩
    exact h
  unfold declarationAt?
  split
  · refine gives_bind fun found _ => gives_pure fun declared hdeclared => ?_
    obtain ⟨found, -, rfl⟩ := Option.map_eq_some_iff.mp hdeclared
    exact isRegular_functionLocal ..
  · exact (isRegular_classAt _ _ _ _).bind fun declared h => gives_pure (hsome h)
  · exact (isRegular_bindingAt _ _ _ _ _).bind fun declared h => gives_pure (hsome h)

/-! ## Declarations and defaults -/

theorem consists_addDeclaration {head : DeclarationHead} (h : surface.Consists P)
    (hP : head.exported = true → ∀ e : Export, e.IsOwn .declarative → P e) :
    Gives (Collection.Consists P) (s.addDeclaration surface head) := by
  unfold addDeclaration
  split
  · exact gives_pure h
  · refine (isRegular_declarationAt? s head).bind fun found hfound => ?_
    split
    · exact gives_pure h
    · rename_i declared
      have hregular := hfound declared rfl
      extract_lets line exported
      have hexported : exported.Consists P := by
        dsimp only [exported]
        split_ifs with hexports
        · exact (h.publish hregular.name_eq).addExport (hP hexports _ (Export.isOwn_default hregular.single))
        · exact (h.publish hregular.name_eq).addExport (hP hexports _ (Export.isOwn_named hregular.single))
        · exact h
      exact gives_pure (hexported.declare hregular)

theorem consists_addDefaultExpression (h : surface.Consists P) (m : Match)
    (hP : ∀ e : Export, e.IsOwn .declarative → P e) :
    Gives (Collection.Consists P) (s.addDefaultExpression surface m) := by
  have hdefault (line : Nat) {kind : ExportKind} (name : Option String) (hkind : kind ≠ .star) :
      P (.default line kind name .declarative) := hP _ (Export.isOwn_default hkind)
  unfold addDefaultExpression
  split_ifs
  · exact gives_pure h
  refine gives_bind fun rest _ => ?_
  extract_lets entry next
  have hnext (isFunction : Bool) : Gives (Collection.Consists P) (next isFunction) := by
    dsimp only [next]
    split_ifs
    · refine gives_bind fun found _ => gives_pure ?_
      cases found with
      | none => exact h.addExport (hdefault _ _ nofun)
      | some found => exact (h.publish rfl).addExport (hdefault _ _ nofun)
    · exact (isRegular_classAt _ _ _ _).bind fun found hfound =>
        gives_pure ((h.publish hfound.name_eq).addExport (hdefault _ _ nofun))
    · exact gives_pure (h.addExport (hdefault _ _ nofun))
    · refine gives_bind fun name _ => ?_
      cases name with
      | none => exact gives_pure (h.addExport (hdefault _ _ nofun))
      | some name =>
          obtain ⟨hrefer, hkind⟩ := h.refer (String.ofList name)
          exact gives_pure (hrefer.addExport (hdefault _ _ hkind))
  split_ifs
  · exact gives_bind fun isFunction _ => hnext isFunction
  · exact gives_bind fun shape _ => gives_bind fun isFunction _ => hnext isFunction

/-! ## Clauses and stars -/

/-- The export of one name of a clause. -/
theorem clauseExport_spec (line : Nat) (kind : ExportKind) (localName publicName : String) (module : Option String) :
    (clauseExport line kind localName publicName module).style = .declarative ∧
      (clauseExport line kind localName publicName module).kind = kind ∧
        (clauseExport line kind localName publicName module).sourceModule = module := by
  unfold clauseExport
  split_ifs <;> exact ⟨rfl, rfl, rfl⟩

/-- Taking an entry in adds nothing but the export that the entry writes. -/
theorem consists_addClauseEntry {line : Nat} {module : Option String} {entry : List Char} (h : surface.Consists P)
    (hsourced : ∀ localName publicName, clauseNames? entry = some (localName, publicName) → module.isSome →
      P (clauseExport line .unknown localName publicName module))
    (hP : ∀ e : Export, e.IsOwn .declarative → P e) :
    (addClauseEntry line module surface entry).Consists P := by
  unfold addClauseEntry
  split
  · exact h
  · rename_i localName publicName hnames
    cases module with
    | none =>
        obtain ⟨hrefer, hkind⟩ := h.refer localName
        obtain ⟨hstyle, hsame, hmodule⟩ :=
          clauseExport_spec line (surface.refer localName).2 localName publicName none
        exact hrefer.addExport (hP _ ⟨hstyle, hmodule, fun he => hkind (hsame ▸ he)⟩)
    | some module => exact h.addExport (hsourced localName publicName hnames rfl)

theorem consists_addExportClause (h : surface.Consists P) (m : Match)
    (hP : ∀ e : Export, e.style = .declarative → e.kind ≠ .star → P e) :
    Gives (Collection.Consists P) (s.addExportClause surface m) := by
  unfold addExportClause
  extract_lets opening
  split
  · exact gives_pure h
  · refine gives_bind fun after _ => gives_bind fun isFrom _ => ?_
    extract_lets next
    have hnext (module : Option String) : Gives (Collection.Consists P) (next module) := by
      refine gives_bind fun list _ => gives_pure ?_
      refine List.foldlRecOn _ _ h fun surface h entry _ => consists_addClauseEntry h (fun localName publicName _ _ => ?_)
        fun e he => hP e he.style_eq he.single
      obtain ⟨hstyle, hkind, -⟩ := clauseExport_spec (s.lineOf m.span.start) .unknown localName publicName module
      exact hP _ hstyle (by rw [hkind]; exact nofun)
    split_ifs
    · exact gives_bind fun offset _ => gives_bind fun module _ => hnext module
    · exact gives_bind fun module _ => hnext module

theorem consists_addExportStar (h : surface.Consists P) (m : Match)
    (hP : ∀ e : Export, e.style = .declarative → e.sourceModule.isSome → P e) :
    (s.addExportStar surface m).Consists P := by
  unfold addExportStar
  split
  · exact h
  · exact h.addExport (hP _ rfl rfl)

/-! ## Assignments -/

/-- Values that are assigned are published or referred to; they are exported only afterwards. -/
theorem consists_addAssignedValue (h : surface.Consists P) (value : Nat) (name : String) (anchor : Nat) :
    Gives (fun result => result.1.Consists P ∧ result.2.1 ≠ .star) (s.addAssignedValue surface value name anchor) := by
  unfold addAssignedValue
  refine gives_bind fun shape _ => ?_
  cases shape with
  | function =>
      refine gives_bind fun found _ => ?_
      cases found with
      | none => exact gives_pure ⟨h, nofun⟩
      | some found =>
          obtain ⟨shape, stop⟩ := found
          refine gives_bind fun isNamed _ => ?_
          extract_lets next
          have hnext (ownName : Option (List Char)) :
              Gives (fun result => result.1.Consists P ∧ result.2.1 ≠ .star) (next ownName) :=
            gives_pure ⟨h.publish rfl, nofun⟩
          split_ifs
          · exact gives_bind fun offset _ => gives_bind fun ownName _ => hnext ownName
          · exact gives_bind fun ownName _ => hnext ownName
  | classType =>
      exact gives_bind fun offset _ => gives_bind fun ownName _ => (isRegular_classAt _ _ _ _).bind fun found hfound =>
        gives_pure ⟨h.publish hfound.name_eq, nofun⟩
  | object => exact gives_pure ⟨h, nofun⟩
  | other =>
      refine gives_bind fun referred _ => ?_
      cases referred with
      | none => exact gives_pure ⟨h, nofun⟩
      | some referred =>
          refine gives_bind fun ends _ => ?_
          split_ifs
          · exact gives_pure (h.refer _)
          · exact gives_pure ⟨h, nofun⟩

section

variable (hP : ∀ e : Export, e.IsOwn .assignment → P e)

include hP

theorem consists_addProperty (h : surface.Consists P) (start : Nat) (property : List Char) :
    Gives (Collection.Consists P) (s.addProperty surface start property) := by
  unfold addProperty
  split
  · exact gives_pure h
  · refine gives_bind fun key _ => ?_
    split
    · exact gives_pure h
    · extract_lets beforeColon next
      have hnext {surface : Collection} {kind : ExportKind} (h : surface.Consists P) (hkind : kind ≠ .star) :
          Gives (Collection.Consists P) (pure (surface, kind) >>= next) :=
        gives_pure (h.addExport (hP _ (Export.isOwn_named hkind)))
      split_ifs
      · refine gives_bind fun value _ => (consists_addAssignedValue h value _ start).bind fun result hresult => ?_
        exact hnext hresult.1 hresult.2
      · refine gives_bind fun found _ => ?_
        cases found with
        | none => exact hnext h nofun
        | some found => exact hnext (h.publish rfl) nofun
      · exact hnext (h.refer _).1 (h.refer _).2

theorem consists_addProperties (h : surface.Consists P) (opening : Nat) :
    Gives (Collection.Consists P) (s.addProperties surface opening) := by
  unfold addProperties
  split
  · exact gives_pure h
  · refine gives_bind fun list _ => gives_foldlM (fun entry _ surface h => ?_) h
    exact consists_addProperty hP h _ _

theorem consists_addModuleExports (h : surface.Consists P) (m : Match) :
    Gives (Collection.Consists P) (s.addModuleExports surface m) := by
  unfold addModuleExports
  refine gives_bind fun value _ => gives_bind fun opens _ => ?_
  split_ifs
  · exact consists_addProperties hP h value
  · exact (consists_addAssignedValue h value "default" _).bind fun result hresult =>
      gives_pure (hresult.1.addExport (hP _ (Export.isOwn_default hresult.2)))

theorem consists_addExportsProperty (h : surface.Consists P) (m : Match) :
    Gives (Collection.Consists P) (s.addExportsProperty surface m) := by
  unfold addExportsProperty
  split
  · exact gives_pure h
  · refine gives_bind fun value _ => ?_
    refine (consists_addAssignedValue h value _ _).bind fun result hresult =>
      gives_pure (hresult.1.addExport ?_)
    split_ifs
    · exact hP _ (Export.isOwn_default hresult.2)
    · exact hP _ ⟨rfl, rfl, hresult.2⟩

theorem consists_addDefinedProperty (h : surface.Consists P) (m : Match) :
    (s.addDefinedProperty surface m).Consists P := by
  unfold addDefinedProperty
  split
  · exact h
  · dsimp only
    split_ifs
    · exact h
    · exact h.addExport (hP _ (Export.isOwn_default nofun))
    · exact h.addExport (hP _ (Export.isOwn_named nofun))

end

end Source

/-! ## All passes -/

/-- The exports of a script have a property that each pass gives to what it adds, and its declarations go by one
name. -/
theorem consists_of_extract {filePath text : String} {language : Language} {snapshot : Snapshot}
    (h : extract filePath language text = .ok snapshot)
    (hdeclarations : ∀ head ∈ (declarationPattern.findAll (codeOnly text.toList)).filterMap
      (Source.of text.toList).declarationHead?, head.exported = true → ∀ e : Export, e.IsOwn .declarative → P e)
    (hdefaults : ∀ m ∈ exportDefaultPattern.findAll (codeOnly text.toList), ∀ e : Export, e.IsOwn .declarative → P e)
    (hclauses : ∀ m ∈ exportClausePattern.findAll (codeOnly text.toList), ∀ surface : Collection, surface.Consists P →
      Gives (Collection.Consists P) ((Source.of text.toList).addExportClause surface m))
    (hstars : ∀ m ∈ exportStarPattern.findAll (codeOnly text.toList), ∀ surface : Collection, surface.Consists P →
      ((Source.of text.toList).addExportStar surface m).Consists P)
    (hassigned : ∀ pattern ∈ [moduleExportsPattern, exportsPropertyPattern, definePropertyPattern],
      ∀ m ∈ pattern.findAll (codeOnly text.toList), ∀ e : Export, e.IsOwn .assignment → P e) :
    snapshot.isFailed = false ∧ (∀ e ∈ snapshot.exports, P e) ∧
      ∀ symbol ∈ snapshot.symbols, symbol.qualifiedName = symbol.name := by
  have hgives : Gives (fun snapshot : Snapshot => snapshot.isFailed = false ∧ (∀ e ∈ snapshot.exports, P e) ∧
      ∀ symbol ∈ snapshot.symbols, symbol.qualifiedName = symbol.name) (extract filePath language text) := by
    unfold extract
    have hempty (status : ParseStatus) (hstatus : status ≠ .failed) :
        Collection.Consists P { snapshot := { filePath, language, status } } :=
      Collection.consists_empty (beq_eq_false_iff_ne.mpr hstatus) rfl rfl (by simp)
    extract_lets source empty
    refine Gives.bind (P := Collection.Consists P) ?_ fun surface h => ?_
    · exact gives_foldlM (fun head hm surface h => Source.consists_addDeclaration h (hdeclarations head hm))
        (hempty _ (by split_ifs <;> exact nofun))
    refine Gives.bind (P := Collection.Consists P) ?_ fun surface h => ?_
    · exact gives_foldlM (fun m hm surface h => Source.consists_addDefaultExpression h m (hdefaults m hm)) h
    refine Gives.bind (P := Collection.Consists P) ?_ fun surface h => ?_
    · exact gives_foldlM hclauses h
    have h : ((Source.of text.toList).addExportStars surface).Consists P :=
      List.foldlRecOn _ _ h fun surface h m hm => hstars m hm surface h
    refine Gives.bind (P := Collection.Consists P) ?_ fun surface h => ?_
    · exact gives_foldlM (fun m hm surface h =>
        Source.consists_addModuleExports (hassigned moduleExportsPattern (by simp) m hm) h m) h
    refine Gives.bind (P := Collection.Consists P) ?_ fun surface h => ?_
    · exact gives_foldlM (fun m hm surface h =>
        Source.consists_addExportsProperty (hassigned exportsPropertyPattern (by simp) m hm) h m) h
    have h : ((Source.of text.toList).addDefinedProperties surface).Consists P :=
      List.foldlRecOn _ _ h fun surface h m hm =>
        Source.consists_addDefinedProperty (hassigned definePropertyPattern (by simp) m hm) h m
    exact gives_pure ⟨h.analyzed, h.exports, h.regular.published⟩
  exact hgives snapshot h

end ApiImpact.Script
