import ApiImpact.Proofs.Change.Exports
import ApiImpact.Proofs.Change.Symbols
import ApiImpact.Proofs.Report.Selection

/-!
# Losses are breaking

What a surface loses is an export, a declaration, or a member of a declaration that stays. Each of them is
reported as breaking under its own symbol, whatever else is found about that symbol.
-/

namespace ApiImpact

/-- The declaration loses the member of this name: a class a method, an interface a property, an
enumeration a member. -/
inductive Shape.LosesMember : Shape → Shape → String → Prop where
  | method {old new : ClassShape} {name : String} : name ∈ old.methods → name ∉ new.methods →
      LosesMember (.classType old) (.classType new) name
  | property {old new : List Property} {name : String} : name ∈ old.map (·.name) →
      name ∉ new.map (·.name) → LosesMember (.interface old) (.interface new) name
  | enumMember {old new : List String} {name : String} : name ∈ old → name ∉ new →
      LosesMember (.enumeration old) (.enumeration new) name

/-- The surface loses something that is filed under this symbol. -/
inductive Snapshot.Loses (before after : Snapshot) : String → Prop where
  | exportGone {e : Export} : e.OnlyIn before after → Loses before after e.findingSymbol
  | declarationGone {s : Symbol} : s ∈ before.symbols → (∀ t ∈ after.symbols, t.identity ≠ s.identity) →
      Loses before after s.name
  | memberGone {old new : Symbol} {name : String} : old ∈ before.symbols → new ∈ after.symbols →
      new.identity = old.identity → old.shape.LosesMember new.shape name →
      Loses before after (new.name ++ "." ++ name)

/-! ## Members -/

namespace DeclarationChange

variable {name : String}

theorem mem_missing {old new : List String} : name ∈ missing old new ↔ name ∈ old ∧ name ∉ new := by
  simp [missing]

theorem propertyRemoved_mem_ofProperties {old new : List Property} (h : name ∈ old.map (·.name))
    (h' : name ∉ new.map (·.name)) : propertyRemoved name ∈ ofProperties old new := by
  obtain ⟨p, hp, hname⟩ := List.mem_map.mp h
  obtain ⟨property, hold⟩ := exists_mem_toList_indexBy hp hname
  have hnew : (byName new)[name]? = none :=
    getElem?_indexBy_eq_none.mpr fun q hq he => h' (List.mem_map.mpr ⟨q, hq, he⟩)
  rw [ofProperties, List.mem_append]
  exact .inl (List.mem_flatMap.mpr ⟨(name, property), hold, by simp [hnew]⟩)

end DeclarationChange

/-- A lost member is among the changes, and is judged to be breaking. -/
theorem Shape.LosesMember.exists_change {old new : Shape} {name : String} (h : old.LosesMember new name)
    (typed : Bool) (owner : String) : ∃ change ∈ DeclarationChange.ofShapes typed old new,
      (Finding.judge typed owner change).severity = .breaking ∧
        (Finding.judge typed owner change).symbol = owner ++ "." ++ name := by
  cases h with
  | method hold hnew =>
      refine ⟨.methodRemoved name, List.mem_append_left _ ?_, rfl, rfl⟩
      exact List.mem_map_of_mem (DeclarationChange.mem_missing.mpr ⟨hold, hnew⟩)
  | property hold hnew =>
      exact ⟨_, DeclarationChange.propertyRemoved_mem_ofProperties hold hnew, rfl, rfl⟩
  | enumMember hold hnew =>
      refine ⟨.enumMemberRemoved name, ?_, rfl, rfl⟩
      exact List.mem_map_of_mem (DeclarationChange.mem_missing.mpr ⟨hold, hnew⟩)

/-! ## The whole surface -/

namespace Finding

variable {change : SurfaceChange} {f : Finding}

theorem mem_all_iff : f ∈ all change ↔
    (∃ s ∈ change.symbols.removed, ofRemovedSymbol s = f) ∨
    (∃ s ∈ change.symbols.added, ofAddedSymbol s = f) ∨
    (∃ m ∈ change.symbols.modified, ∃ c ∈ m.changes, ofDeclarationChange change.typed m c = f) ∨
    (∃ r ∈ change.exports.removed, ofRemovedExport r = f) ∨
    (∃ m ∈ change.exports.modified, ofModifiedExport m = f) ∨
    (∃ e ∈ change.exports.added, ofAddedExport e = f) ∨
    (∃ c ∈ change.package, ofPackageChange c = f) ∨
    ∃ c ∈ change.moduleSystem, ofModuleSystemChange c = f := by
  simp [all]

theorem ofRemovedSymbol_mem_all {s : Symbol} (h : s ∈ change.symbols.removed) :
    ofRemovedSymbol s ∈ all change :=
  mem_all_iff.mpr (.inl ⟨s, h, rfl⟩)

theorem ofDeclarationChange_mem_all {m : ModifiedSymbol} {c : DeclarationChange}
    (h : m ∈ change.symbols.modified) (hc : c ∈ m.changes) :
    ofDeclarationChange change.typed m c ∈ all change :=
  mem_all_iff.mpr (.inr (.inr (.inl ⟨m, h, c, hc, rfl⟩)))

theorem ofRemovedExport_mem_all {r : RemovedExport} (h : r ∈ change.exports.removed) :
    ofRemovedExport r ∈ all change :=
  mem_all_iff.mpr (.inr (.inr (.inr (.inl ⟨r, h, rfl⟩))))

theorem ofModifiedExport_mem_all {m : ModifiedExport} (h : m ∈ change.exports.modified) :
    ofModifiedExport m ∈ all change :=
  mem_all_iff.mpr (.inr (.inr (.inr (.inr (.inl ⟨m, h, rfl⟩)))))

end Finding

namespace SurfaceChange

variable {threshold : UInt8} {before after : Snapshot} {symbol : String}

theorem isComparable_of_fingerprint_ne (hpath : before.filePath = after.filePath)
    (hbefore : before.isFailed = false) (hafter : after.isFailed = false)
    (hcontents : before.fingerprint ≠ after.fingerprint) : isComparable before after = true := by
  simp [isComparable, hpath, hbefore, hafter, hcontents]

theorem between_of_isComparable (h : isComparable before after = true) :
    between threshold before after =
      let typed := before.language.isTyped && after.language.isTyped
      { symbols := .between typed before after
        exports := .between threshold before after
        package := PackageChange.between before.manifest after.manifest
        moduleSystem := ModuleSystemChange.between? before.moduleSystem after.moduleSystem
        typed } :=
  if_pos h

/-- Whatever the surface loses, some finding about it is breaking. -/
theorem exists_breaking_of_loses (threshold : UInt8) (h : isComparable before after = true)
    (hb : before.HasUniqueIdentities) (ha : after.HasUniqueIdentities) (hloss : before.Loses after symbol) :
    ∃ f ∈ Finding.all (between threshold before after), f.severity = .breaking ∧ f.symbol = symbol := by
  rw [between_of_isComparable h]
  cases hloss with
  | exportGone honly =>
      rcases ExportChanges.removed_or_modified hb.exports ha.exports honly with
        ⟨r, hr, rfl⟩ | ⟨m, hm, rfl⟩
      · exact ⟨_, Finding.ofRemovedExport_mem_all hr, rfl, rfl⟩
      · exact ⟨_, Finding.ofModifiedExport_mem_all hm, rfl, rfl⟩
  | declarationGone hs hnone =>
      exact ⟨_, Finding.ofRemovedSymbol_mem_all ((SymbolChanges.mem_removed hb.symbols).mpr ⟨hs, hnone⟩), rfl, rfl⟩
  | @memberGone old new name hold hnew hid hmember =>
      let typed := before.language.isTyped && after.language.isTyped
      let modified : ModifiedSymbol :=
        ⟨old, new, DeclarationChange.ofShapes typed old.shape new.shape⟩
      obtain ⟨change, hc, hseverity, hsymbol⟩ := hmember.exists_change typed new.name
      have hm : modified ∈ (SymbolChanges.between typed before after).modified :=
        (SymbolChanges.mem_modified hb.symbols ha.symbols).mpr ⟨hold, hnew, hid, rfl, List.ne_nil_of_mem hc⟩
      exact ⟨_, Finding.ofDeclarationChange_mem_all hm hc, hseverity, hsymbol⟩

end SurfaceChange

namespace ImpactReport

variable {before after : Snapshot}

/-- Between two comparable snapshots no loss goes unreported, and none is reported as less than breaking. -/
theorem reports_every_loss (hpath : before.filePath = after.filePath)
    (hbefore : before.isFailed = false) (hafter : after.isFailed = false)
    (hcontents : before.fingerprint ≠ after.fingerprint) (hb : before.HasUniqueIdentities)
    (ha : after.HasUniqueIdentities) (threshold : UInt8) (sourceFile : String) (root : Path)
    (dependents : List Dependent) (tests : List AffectedTest) :
    let report :=
      ImpactReport.of sourceFile (SurfaceChange.between threshold before after) root dependents tests
    ∀ symbol, before.Loses after symbol →
      (∃ f ∈ report.findings, f.severity = .breaking ∧ f.symbol = symbol) ∧ report.hasBreaking = true := by
  intro report symbol hloss
  have hcomparable := SurfaceChange.isComparable_of_fingerprint_ne hpath hbefore hafter hcontents
  obtain ⟨f, hf, hseverity, hsymbol⟩ :=
    SurfaceChange.exists_breaking_of_loses threshold hcomparable hb ha hloss
  obtain ⟨g, hg, hsame, hbreaking⟩ :=
    Finding.exists_mem_reported (SurfaceChange.between threshold before after).typed hf
  have hg : g ∈ report.findings := by rwa [findings_of]
  exact ⟨⟨g, hg, hbreaking hseverity, hsame.trans hsymbol⟩, hasBreaking_iff.mpr ⟨g, hg, hbreaking hseverity⟩⟩

/-- A class that loses a method, and gains another. -/
theorem reports_every_loss_of_method :
    let store (line : Nat) (methods : List String) : Symbol :=
      { name := "Store", qualifiedName := "Store", kind := .classType, line, column := 0
        signature := "export class Store", shape := .classType { methods } }
    let empty : Snapshot := { filePath := "m.js", language := .javaScript, status := .parsed }
    let before := { empty with fingerprint := 1 }.addSymbol (store 1 ["get", "put"])
    let after := { empty with fingerprint := 2 }.addSymbol (store 2 ["get", "set"])
    let report := ImpactReport.of "m.js" (SurfaceChange.between 2 before after) (.ofString "/p") [] []
    before.HasUniqueIdentities ∧ after.HasUniqueIdentities ∧ before.Loses after "Store.put" ∧
      (∃ f ∈ report.findings, f.severity = .breaking ∧ f.symbol = "Store.put") ∧
      report.hasBreaking = true := by
  intro store empty before after report
  have hb : before.HasUniqueIdentities :=
    (Snapshot.hasUniqueIdentities_of_nil rfl rfl).addSymbol _
  have ha : after.HasUniqueIdentities :=
    (Snapshot.hasUniqueIdentities_of_nil rfl rfl).addSymbol _
  have hmember : (store 1 ["get", "put"]).shape.LosesMember (store 2 ["get", "set"]).shape "put" :=
    .method (by decide) (by decide)
  have hname : "Store.put" = (store 2 ["get", "set"]).name ++ "." ++ "put" := by decide
  have hloss : before.Loses after "Store.put" := by
    rw [hname]
    exact .memberGone (List.mem_singleton_self _) (List.mem_singleton_self _) rfl hmember
  have hpath : before.filePath = after.filePath := by decide
  have hcontents : before.fingerprint ≠ after.fingerprint := by decide
  have hreport := reports_every_loss hpath (by decide) (by decide) hcontents hb ha 2 "m.js" (.ofString "/p")
    [] [] "Store.put" hloss
  exact ⟨hb, ha, hloss, hreport⟩

end ImpactReport

end ApiImpact
