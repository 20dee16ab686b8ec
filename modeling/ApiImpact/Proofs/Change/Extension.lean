import ApiImpact.Proofs.Change.Exports
import ApiImpact.Proofs.Change.Symbols
import ApiImpact.Proofs.Report.Selection

/-!
# Compatible extensions

A declaration is extended when whoever uses it as it was can go on doing so: what callers may leave out is
added, and nothing is taken away. A surface that is only extended has added declarations and exports, and
no other changes.
-/

namespace ApiImpact

/-- Parameters are only added at the end, and callers may leave the added ones out. -/
def Parameter.AreExtendedBy (old new : List Parameter) : Prop :=
  ∃ added, new = old ++ added ∧ ∀ p ∈ added, p.isRequired = false

/-- A constructor takes what it took before. Without one, a class is constructed without arguments. -/
inductive ClassShape.ConstructorIsExtendedBy : Option (List Parameter) → Option (List Parameter) → Prop where
  | absent : ConstructorIsExtendedBy none none
  | declared {new : List Parameter} : (∀ p ∈ new, p.isRequired = false) →
      ConstructorIsExtendedBy none (some new)
  | extended {old new : List Parameter} : Parameter.AreExtendedBy old new →
      ConstructorIsExtendedBy (some old) (some new)

/-- A declaration of the shape `new` serves whoever uses one of the shape `old`. -/
inductive Shape.IsExtendedBy : Shape → Shape → Prop where
  | function {old new : FunctionShape} : Parameter.AreExtendedBy old.params new.params →
      new.returnType = old.returnType → new.isAsync = old.isAsync →
      IsExtendedBy (.function old) (.function new)
  | classType {old new : ClassShape} : old.methods ⊆ new.methods →
      ClassShape.ConstructorIsExtendedBy old.constructor new.constructor →
      IsExtendedBy (.classType old) (.classType new)
  | interface {old new : List Property} : (new.map (·.name)).Nodup → old ⊆ new →
      (∀ p ∈ new, p ∈ old ∨ p.optional = true) → IsExtendedBy (.interface old) (.interface new)
  | enumeration {old new : List String} : old ⊆ new → IsExtendedBy (.enumeration old) (.enumeration new)
  | typeAlias {definition : String} : IsExtendedBy (.typeAlias definition) (.typeAlias definition)
  | binding {old new : Option String} : IsExtendedBy (.binding old) (.binding new)

/-- Everything on the surface `before` is on the surface `after` as it was, or extended. -/
structure Snapshot.IsExtendedBy (before after : Snapshot) : Prop where
  exports : ∀ e ∈ before.exports, ∃ e' ∈ after.exports, e'.key = e.key ∧ e'.kind = e.kind
  symbols : ∀ s ∈ before.symbols, ∃ s' ∈ after.symbols,
    s'.kind = s.kind ∧ s'.qualifiedName = s.qualifiedName ∧ s.shape.IsExtendedBy s'.shape
  manifest : after.manifest = before.manifest
  moduleSystem : after.moduleSystem = before.moduleSystem

/-! ## Declarations -/

theorem TypeText.differ_self (type : String) : differ type type = false := by
  simp [differ]

namespace ParameterChange

variable {typed : Bool} {old new : List Parameter}

theorem ofPair_self (typed : Bool) (p : Parameter) : ofPair typed p p = [] := by
  cases ht : p.declaredType <;> simp [ofPair, ofTypes, ht, TypeText.differ_self]

theorem eq_of_mem_zip_append {added : List Parameter} {pair : Parameter × Parameter}
    (h : pair ∈ old.zip (old ++ added)) : pair.1 = pair.2 := by
  induction old with
  | nil => simp at h
  | cons p rest ih =>
      rw [List.cons_append, List.zip_cons_cons, List.mem_cons] at h
      rcases h with rfl | h
      · rfl
      · exact ih h

theorem ofLists_eq_nil (h : Parameter.AreExtendedBy old new) : ofLists typed old new = [] := by
  obtain ⟨added, rfl, hadded⟩ := h
  have hcount : ¬(old ++ added).length < old.length := by simp
  have hrest : (old.any (·.rest) && !(old ++ added).any (·.rest)) = false := by
    cases hr : old.any (·.rest) <;> simp [hr]
  have hnew : ofAdded old (old ++ added) = [] := by
    have hrequired : added.filter (·.isRequired) = [] := List.filter_eq_nil_iff.mpr (by simpa using hadded)
    simp [ofAdded, hrequired]
  rw [ofLists, if_neg hcount, hrest, if_neg Bool.false_ne_true, hnew, ite_self, List.append_nil,
    List.nil_append, List.nil_append, List.flatMap_eq_nil_iff]
  rintro ⟨p, q⟩ hm
  obtain rfl : p = q := eq_of_mem_zip_append hm
  exact ofPair_self typed p

end ParameterChange

namespace DeclarationChange

variable {typed : Bool}

theorem missing_eq_nil {old new : List String} (h : old ⊆ new) : missing old new = [] := by
  simpa [missing] using fun name hm => h hm

theorem ofReturnTypes_self (type : Option String) : ofReturnTypes type type = [] := by
  cases type <;> simp [ofReturnTypes, TypeText.differ_self]

theorem ofConstructors_eq_nil {old new : Option (List Parameter)}
    (h : ClassShape.ConstructorIsExtendedBy old new) : ofConstructors typed old new = [] := by
  cases h with
  | absent => rfl
  | @declared new hnew =>
      have hempty : ParameterChange.ofLists typed [] new = [] :=
        ParameterChange.ofLists_eq_nil ⟨new, rfl, hnew⟩
      simp [ofConstructors, hempty]
  | extended hparams => simp [ofConstructors, ParameterChange.ofLists_eq_nil hparams]

theorem ofProperty_self (name : String) (p : Property) : ofProperty name p p = [] := by
  cases ht : p.declaredType <;> simp [ofProperty, ht, TypeText.differ_self]

theorem ofProperties_eq_nil {old new : List Property} (hnames : (new.map (·.name)).Nodup)
    (hkeep : old ⊆ new) (hadd : ∀ p ∈ new, p ∈ old ∨ p.optional = true) : ofProperties old new = [] := by
  have hnew (p : Property) (hp : p ∈ new) : (byName new)[p.name]? = some p :=
    (getElem?_indexBy hnames).mpr ⟨hp, rfl⟩
  have hold (name : String) (p : Property) (hm : (name, p) ∈ (byName old).toList) :
      p ∈ old ∧ p.name = name :=
    mem_of_getElem?_indexBy (Std.ExtTreeMap.mem_toList_iff_getElem?_eq_some.mp hm)
  rw [ofProperties, List.append_eq_nil_iff, List.flatMap_eq_nil_iff, List.map_eq_nil_iff,
    List.filter_eq_nil_iff]
  constructor
  · rintro ⟨name, p⟩ hm
    obtain ⟨hp, rfl⟩ := hold name p hm
    simp [hnew p (hkeep hp), ofProperty_self]
  · rintro ⟨name, p⟩ hm
    obtain ⟨hp, rfl⟩ := (mem_toList_indexBy hnames).mp hm
    rcases hadd p hp with hp | hp
    · have hcontains : (byName old).contains p.name = true := contains_indexBy.mpr ⟨p, hp, rfl⟩
      simp [hcontains]
    · simp [hp]

/-- Nothing is found to have changed in a declaration that was extended. -/
theorem ofShapes_eq_nil {old new : Shape} (h : old.IsExtendedBy new) : ofShapes typed old new = [] := by
  cases h with
  | function hparams hreturn hasync =>
      cases typed <;>
        simp [ofShapes, ofFunctions, ParameterChange.ofLists_eq_nil hparams, hreturn, hasync,
          ofReturnTypes_self]
  | classType hmethods hconstructor =>
      simp [ofShapes, ofClasses, missing_eq_nil hmethods, ofConstructors_eq_nil hconstructor]
  | interface hnames hkeep hadd => exact ofProperties_eq_nil hnames hkeep hadd
  | enumeration hmembers => simp [ofShapes, missing_eq_nil hmembers]
  | typeAlias => simp [ofShapes]
  | binding => rfl

end DeclarationChange

/-! ## Surfaces -/

namespace Snapshot.IsExtendedBy

variable {before after : Snapshot} {typed : Bool} {threshold : UInt8}

theorem removed_symbols_eq_nil (h : before.IsExtendedBy after) (hb : before.HasUniqueIdentities) :
    (SymbolChanges.between typed before after).removed = [] := by
  rw [List.eq_nil_iff_forall_not_mem]
  intro s hm
  obtain ⟨hs, hnone⟩ := (SymbolChanges.mem_removed hb.symbols).mp hm
  obtain ⟨s', hs', hkind, hname, -⟩ := h.symbols s hs
  exact hnone s' hs' (by simp [Symbol.identity, Symbol.shelf, hkind, hname])

theorem modified_symbols_eq_nil (h : before.IsExtendedBy after) (hb : before.HasUniqueIdentities)
    (ha : after.HasUniqueIdentities) : (SymbolChanges.between typed before after).modified = [] := by
  rw [List.eq_nil_iff_forall_not_mem]
  intro m hm
  obtain ⟨hbefore, hafter, hid, hchanges, hne⟩ := (SymbolChanges.mem_modified hb.symbols ha.symbols).mp hm
  obtain ⟨s', hs', hkind, hname, hshape⟩ := h.symbols m.before hbefore
  have hid' : s'.identity = m.before.identity := by simp [Symbol.identity, Symbol.shelf, hkind, hname]
  obtain rfl : s' = m.after := List.inj_on_of_nodup_map ha.symbols hs' hafter (hid'.trans hid.symm)
  exact hne (hchanges.trans (DeclarationChange.ofShapes_eq_nil hshape))

theorem onlyIn_eq_nil (h : before.IsExtendedBy after) (hb : before.HasUniqueIdentities) :
    ExportChanges.onlyIn before after = [] := by
  rw [List.eq_nil_iff_forall_not_mem]
  intro e hm
  obtain ⟨he, hnone⟩ := (ExportChanges.mem_onlyIn hb.exports).mp hm
  obtain ⟨e', he', hkey, -⟩ := h.exports e he
  exact hnone e' he' hkey

theorem removed_exports_eq_nil (h : before.IsExtendedBy after) (hb : before.HasUniqueIdentities) :
    (ExportChanges.between threshold before after).removed = [] := by
  rw [← List.map_eq_nil_iff, ExportChanges.map_was_removed, h.onlyIn_eq_nil hb]
  rfl

theorem modified_exports_eq_nil (h : before.IsExtendedBy after) (hb : before.HasUniqueIdentities)
    (ha : after.HasUniqueIdentities) : (ExportChanges.between threshold before after).modified = [] := by
  have hkinds : ExportChanges.kindChanges before after = [] := by
    rw [List.eq_nil_iff_forall_not_mem]
    intro m hm
    obtain ⟨hbefore, hafter, hkey, -, hne, -⟩ :=
      (ExportChanges.mem_kindChanges hb.exports ha.exports).mp hm
    obtain ⟨e', he', hkey', hkind⟩ := h.exports m.before hbefore
    obtain rfl : e' = m.after := List.inj_on_of_nodup_map ha.exports he' hafter (hkey'.trans hkey.symm)
    exact hne hkind.symm
  rw [ExportChanges.modified_eq, hkinds, ExportChanges.transitions, h.onlyIn_eq_nil hb]
  rfl

end Snapshot.IsExtendedBy

/-!
## Additions raise no alarm

When a surface is only extended, the report says what was added and nothing else.
-/

theorem PackageChange.between_self (manifest : Option Manifest) : between manifest manifest = [] := by
  cases manifest <;> simp [between, ofEntryPoints, ofTypes]

theorem ModuleSystemChange.between?_self (moduleSystem : ModuleSystem) :
    between? moduleSystem moduleSystem = none :=
  if_pos rfl

/-- The finding only says that something was added. -/
def Finding.IsAddition (f : Finding) : Prop :=
  f.severity = .info ∧ (f.rule = .symbolAdded ∨ f.rule = .exportAdded)

variable {before after : Snapshot} {f : Finding}

theorem SurfaceChange.isAddition_of_mem_all (h : before.IsExtendedBy after)
    (hb : before.HasUniqueIdentities) (ha : after.HasUniqueIdentities) {threshold : UInt8}
    (hm : f ∈ Finding.all (between threshold before after)) : f.IsAddition := by
  unfold between at hm
  split_ifs at hm
  · simp only [Finding.all, h.removed_symbols_eq_nil hb, h.modified_symbols_eq_nil hb ha,
      h.removed_exports_eq_nil hb, h.modified_exports_eq_nil hb ha, h.manifest, h.moduleSystem,
      PackageChange.between_self, ModuleSystemChange.between?_self, List.map_nil, List.flatMap_nil,
      Option.toList_none, List.append_nil, List.nil_append, List.mem_append, List.mem_map] at hm
    rcases hm with ⟨s, -, rfl⟩ | ⟨e, -, rfl⟩
    · exact ⟨rfl, .inl rfl⟩
    · exact ⟨rfl, .inr rfl⟩
  · cases hm

namespace ImpactReport

/-- A surface that is only extended gives a report of additions, none of them breaking. -/
theorem reports_only_additions (hb : before.HasUniqueIdentities) (ha : after.HasUniqueIdentities)
    (h : before.IsExtendedBy after) (threshold : UInt8) (sourceFile : String) (root : Path)
    (dependents : List Dependent) (tests : List AffectedTest) :
    let report :=
      ImpactReport.of sourceFile (SurfaceChange.between threshold before after) root dependents tests
    (∀ f ∈ report.findings, f.IsAddition) ∧ report.hasBreaking = false := by
  intro report
  have hadditions : ∀ f ∈ report.findings, f.IsAddition := by
    intro f hf
    rw [findings_of] at hf
    obtain ⟨kept, hk, rfl, -⟩ := Finding.exists_of_mem_reported hf
    simpa [Finding.IsAddition] using SurfaceChange.isAddition_of_mem_all h hb ha hk
  refine ⟨hadditions, ?_⟩
  rw [Bool.eq_false_iff, Ne, hasBreaking_iff]
  rintro ⟨f, hf, hs⟩
  simp [(hadditions f hf).1] at hs

/-- A function that gains an optional parameter, beside a new one. -/
theorem reports_only_additions_of_parameter :
    let function (name : String) (line : Nat) (params : List Parameter) : Symbol :=
      { name, qualifiedName := name, kind := .function, line, column := 0
        signature := "export function " ++ name, shape := .function { params, returnType := "File" } }
    let path : Parameter := { name := "path", declaredType := "string" }
    let mode : Parameter := { name := "mode", declaredType := "string", optional := true }
    let empty : Snapshot := { filePath := "m.ts", language := .typeScript, status := .parsed }
    let before := ({ empty with fingerprint := 1 }.addSymbol (function "open" 1 [path])).addExport
      (.named "open" 1 .function .declarative)
    let after := ((({ empty with fingerprint := 2 }.addSymbol (function "close" 1 [path])).addSymbol
      (function "open" 2 [path, mode])).addExport (.named "close" 1 .function .declarative)).addExport
      (.named "open" 2 .function .declarative)
    let report := ImpactReport.of "m.ts" (SurfaceChange.between 2 before after) (.ofString "/p") [] []
    before.HasUniqueIdentities ∧ after.HasUniqueIdentities ∧ before.IsExtendedBy after ∧
      (∀ f ∈ report.findings, f.IsAddition) ∧ report.hasBreaking = false := by
  intro function path mode empty before after report
  have hb : before.HasUniqueIdentities :=
    ((Snapshot.hasUniqueIdentities_of_nil rfl rfl).addSymbol _).addExport _
  have ha : after.HasUniqueIdentities :=
    ((((Snapshot.hasUniqueIdentities_of_nil rfl rfl).addSymbol _).addSymbol _).addExport _).addExport _
  have hparams : Parameter.AreExtendedBy [path] [path, mode] := ⟨[mode], rfl, by decide⟩
  have hsymbols : before.symbols = [function "open" 1 [path]] := by rfl
  have hextended : before.IsExtendedBy after :=
    { exports := by decide
      symbols := by
        intro s hs
        rw [hsymbols, List.mem_singleton] at hs
        subst hs
        exact ⟨function "open" 2 [path, mode], by decide, rfl, rfl, .function hparams rfl rfl⟩
      manifest := rfl
      moduleSystem := rfl }
  have hreport := reports_only_additions hb ha hextended 2 "m.ts" (.ofString "/p") [] []
  exact ⟨hb, ha, hextended, hreport⟩

end ImpactReport

end ApiImpact
