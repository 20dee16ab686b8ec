import ApiImpact.Proofs.Result
import ApiImpact.Proofs.Surface.Entries
import ApiImpact.Script.Exports

/-!
# How the passes over a script grow a surface

No pass takes an export or a declaration away, or changes one that is there.
-/

namespace ApiImpact.Script

open Text

namespace Source

variable {s : Source} {first surface : Collection}

/-! ## Declarations and defaults -/

theorem grows_addDeclaration (h : first.Grows surface) (head : DeclarationHead) :
    Gives first.Grows (s.addDeclaration surface head) := by
  unfold addDeclaration
  split
  · exact gives_pure h
  · refine gives_bind fun found _ => ?_
    split
    · exact gives_pure h
    · rename_i declared _
      extract_lets line exported
      have hexported : first.Grows exported := by
        dsimp only [exported]
        split_ifs
        · exact (h.publish _).addExport _
        · exact (h.publish _).addExport _
        · exact h
      exact gives_pure (hexported.declare declared)

theorem grows_addDefaultExpression (h : first.Grows surface) (m : Match) :
    Gives first.Grows (s.addDefaultExpression surface m) := by
  unfold addDefaultExpression
  split_ifs
  · exact gives_pure h
  refine gives_bind fun rest _ => ?_
  extract_lets entry next
  have hnext (isFunction : Bool) : Gives first.Grows (next isFunction) := by
    dsimp only [next]
    split_ifs
    · refine gives_bind fun found _ => gives_pure ?_
      cases found with
      | none => exact h.addExport _
      | some found => exact (h.publish _).addExport _
    · exact gives_bind fun found _ => gives_pure ((h.publish _).addExport _)
    · exact gives_pure (h.addExport _)
    · refine gives_bind fun name _ => ?_
      cases name with
      | none => exact gives_pure (h.addExport _)
      | some name => exact gives_pure ((h.refer _).addExport _)
  split_ifs
  · exact gives_bind fun isFunction _ => hnext isFunction
  · exact gives_bind fun shape _ => gives_bind fun isFunction _ => hnext isFunction

/-! ## Clauses and stars -/

theorem grows_addClauseEntry (h : first.Grows surface) (line : Nat) (module : Option String) (entry : List Char) :
    first.Grows (addClauseEntry line module surface entry) := by
  unfold addClauseEntry
  split
  · exact h
  · cases module with
    | none => exact (h.refer _).addExport _
    | some module => exact h.addExport _

theorem grows_addExportClause (h : first.Grows surface) (m : Match) :
    Gives first.Grows (s.addExportClause surface m) := by
  unfold addExportClause
  extract_lets opening
  split
  · exact gives_pure h
  · refine gives_bind fun after _ => gives_bind fun isFrom _ => ?_
    extract_lets next
    have hnext (module : Option String) : Gives first.Grows (next module) := by
      refine gives_bind fun list _ => gives_pure ?_
      exact List.foldlRecOn _ _ h fun surface h _ _ => grows_addClauseEntry h _ _ _
    split_ifs
    · exact gives_bind fun offset _ => gives_bind fun module _ => hnext module
    · exact gives_bind fun module _ => hnext module

theorem grows_addExportStar (h : first.Grows surface) (m : Match) : first.Grows (s.addExportStar surface m) := by
  unfold addExportStar
  split
  · exact h
  · exact h.addExport _

/-! ## Assignments -/

theorem grows_addAssignedValue (h : first.Grows surface) (value : Nat) (name : String) (anchor : Nat) :
    Gives (fun result => first.Grows result.1) (s.addAssignedValue surface value name anchor) := by
  unfold addAssignedValue
  refine gives_bind fun shape _ => ?_
  cases shape with
  | function =>
      refine gives_bind fun found _ => ?_
      cases found with
      | none => exact gives_pure h
      | some found =>
          obtain ⟨shape, stop⟩ := found
          refine gives_bind fun isNamed _ => ?_
          extract_lets next
          have hnext (ownName : Option (List Char)) : Gives (fun result => first.Grows result.1) (next ownName) :=
            gives_pure (h.publish _)
          split_ifs
          · exact gives_bind fun offset _ => gives_bind fun ownName _ => hnext ownName
          · exact gives_bind fun ownName _ => hnext ownName
  | classType =>
      exact gives_bind fun offset _ => gives_bind fun ownName _ => gives_bind fun found _ =>
        gives_pure (h.publish _)
  | object => exact gives_pure h
  | other =>
      refine gives_bind fun referred _ => ?_
      cases referred with
      | none => exact gives_pure h
      | some referred =>
          refine gives_bind fun ends _ => ?_
          split_ifs
          · exact gives_pure (h.refer _)
          · exact gives_pure h

theorem grows_addProperty (h : first.Grows surface) (start : Nat) (property : List Char) :
    Gives first.Grows (s.addProperty surface start property) := by
  unfold addProperty
  split
  · exact gives_pure h
  · refine gives_bind fun key _ => ?_
    split
    · exact gives_pure h
    · extract_lets beforeColon next
      have hnext {surface : Collection} {kind : ExportKind} (h : first.Grows surface) :
          Gives first.Grows (pure (surface, kind) >>= next) := gives_pure (h.addExport _)
      split_ifs
      · exact gives_bind fun value _ => (grows_addAssignedValue h value _ start).bind fun result hresult =>
          hnext hresult
      · refine gives_bind fun found _ => ?_
        cases found with
        | none => exact hnext h
        | some found => exact hnext (h.publish _)
      · exact hnext (h.refer _)

theorem grows_addModuleExports (h : first.Grows surface) (m : Match) :
    Gives first.Grows (s.addModuleExports surface m) := by
  unfold addModuleExports
  refine gives_bind fun value _ => gives_bind fun opens _ => ?_
  split_ifs
  · unfold addProperties
    split
    · exact gives_pure h
    · exact gives_bind fun list _ => gives_foldlM (fun entry _ surface h => grows_addProperty h _ _) h
  · exact (grows_addAssignedValue h value "default" _).bind fun result hresult => gives_pure (hresult.addExport _)

theorem grows_addExportsProperty (h : first.Grows surface) (m : Match) :
    Gives first.Grows (s.addExportsProperty surface m) := by
  unfold addExportsProperty
  split
  · exact gives_pure h
  · exact gives_bind fun value _ => (grows_addAssignedValue h value _ _).bind fun result hresult =>
      gives_pure (hresult.addExport _)

theorem grows_addDefinedProperty (h : first.Grows surface) (m : Match) :
    first.Grows (s.addDefinedProperty surface m) := by
  unfold addDefinedProperty
  split
  · exact h
  · dsimp only
    split_ifs
    · exact h
    · exact h.addExport _
    · exact h.addExport _

end Source

/-- The surface of a script is collected from nothing. -/
theorem isCollected_of_extract {filePath text : String} {language : Language} {snapshot : Snapshot}
    (h : extract filePath language text = .ok snapshot) :
    snapshot.IsCollected := by
  have hgives : Gives Snapshot.IsCollected (extract filePath language text) := by
    unfold extract
    extract_lets source empty
    let first : Collection := { snapshot := empty }
    refine Gives.bind (P := first.Grows) ?_ fun surface h => ?_
    · exact gives_foldlM (fun head _ surface h => Source.grows_addDeclaration h head) .refl
    refine Gives.bind (P := first.Grows) ?_ fun surface h => ?_
    · exact gives_foldlM (fun m _ surface h => Source.grows_addDefaultExpression h m) h
    refine Gives.bind (P := first.Grows) ?_ fun surface h => ?_
    · exact gives_foldlM (fun m _ surface h => Source.grows_addExportClause h m) h
    have h : first.Grows ((Source.of text.toList).addExportStars surface) :=
      List.foldlRecOn _ _ h fun surface h m _ => Source.grows_addExportStar h m
    refine Gives.bind (P := first.Grows) ?_ fun surface h => ?_
    · exact gives_foldlM (fun m _ surface h => Source.grows_addModuleExports h m) h
    refine Gives.bind (P := first.Grows) ?_ fun surface h => ?_
    · exact gives_foldlM (fun m _ surface h => Source.grows_addExportsProperty h m) h
    have h : first.Grows ((Source.of text.toList).addDefinedProperties surface) :=
      List.foldlRecOn _ _ h fun surface h m _ => Source.grows_addDefinedProperty h m
    exact gives_pure ⟨first, _, h, rfl, rfl, rfl, rfl⟩
  exact hgives snapshot h

end ApiImpact.Script
