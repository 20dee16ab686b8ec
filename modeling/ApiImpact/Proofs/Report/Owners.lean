import ApiImpact.Proofs.Report.Loss

/-!
# Which functions and classes the report lists

A report lists the functions and classes that its findings are about. Of the findings filed under one symbol it
keeps one, and that one may be about something else: an export of another kind, or another declaration of the
name. So a function or class that changed is listed just when not all findings about it are displaced.
-/

namespace ApiImpact

namespace Finding

variable {change : SurfaceChange} {findings : List Finding} {typed : Bool} {f g : Finding} {kind : SymbolKind}
  {name : String}

/-- The finding says that something was added. -/
def IsOfAddition (f : Finding) : Prop :=
  f.rule = .symbolAdded ∨ f.rule = .exportAdded

/-- The finding is about the declaration of this kind and name, and does not say that it was added. -/
def Blames (f : Finding) (kind : SymbolKind) (name : String) : Prop :=
  f.owner = some (kind, name) ∧ ¬ f.IsOfAddition

/-- `g` is filed under the symbol of `f`, ranks no lower, and is about something else. -/
def Displaces (g f : Finding) : Prop :=
  g.symbol = f.symbol ∧ f.rank ≤ g.rank ∧ g.owner ≠ f.owner

@[simp]
theorem owner_disclaim (typed : Bool) (f : Finding) : (f.disclaim typed).owner = f.owner := by
  rcases disclaim_eq typed f with h | h <;> rw [h]

@[simp]
theorem rank_disclaim (typed : Bool) (f : Finding) : (f.disclaim typed).rank = f.rank := by
  simp [rank]

theorem blames_disclaim (typed : Bool) : (f.disclaim typed).Blames kind name ↔ f.Blames kind name := by
  simp [Blames, IsOfAddition]

/-! ## Additions -/

theorem rule_judge_ne (typed : Bool) (owner : String) (c : DeclarationChange) :
    (judge typed owner c).rule ≠ .symbolAdded ∧ (judge typed owner c).rule ≠ .exportAdded := by
  cases c with
  | parameters c => cases c <;> simp [judge, judgeParameters, Callable.rule]
  | constructor c => cases c <;> simp [judge, judgeParameters, Callable.rule]
  | asyncChanged nowAsync => cases nowAsync <;> simp [judge]
  | _ => simp [judge]

theorem severity_of_isOfAddition (h : f ∈ all change) (hf : f.IsOfAddition) : f.severity = .info := by
  rcases mem_all_iff.mp h with ⟨s, -, rfl⟩ | ⟨s, -, rfl⟩ | ⟨m, -, c, -, rfl⟩ | ⟨r, -, rfl⟩ | ⟨m, -, rfl⟩ |
    ⟨e, -, rfl⟩ | ⟨c, -, rfl⟩ | ⟨c, -, rfl⟩
  · cases hk : s.kind <;> simp [IsOfAddition, ofRemovedSymbol, removalRule, hk] at hf
  · rfl
  · obtain ⟨hsymbol, hexport⟩ := rule_judge_ne change.typed m.after.name c
    exact absurd hf (not_or.mpr ⟨hsymbol, hexport⟩)
  · simp only [IsOfAddition, ofRemovedExport, RemovedExport.rule] at hf
    split_ifs at hf <;> simp at hf
  · cases ht : m.transition <;> simp [IsOfAddition, ofModifiedExport, ModifiedExport.rule, ht] at hf
  · rfl
  · cases c <;> simp [IsOfAddition, ofPackageChange] at hf
  · simp [IsOfAddition, ofModuleSystemChange] at hf

theorem priority_le_ten_iff (rule : Rule) : rule.priority ≤ 10 ↔ rule = .symbolAdded ∨ rule = .exportAdded := by
  cases rule <;> decide

/-- An addition ranks below everything else. -/
theorem IsOfAddition.of_rank_le (hg : g ∈ all change) (h : g.IsOfAddition) (hrank : f.rank ≤ g.rank) :
    f.IsOfAddition := by
  have hinfo := severity_of_isOfAddition hg h
  have hlow := (priority_le_ten_iff g.rule).mpr h
  rw [rank, rank, Prod.Lex.toLex_le_toLex, hinfo] at hrank
  rcases hrank with hweight | ⟨-, hpriority⟩
  · exact absurd hweight (Nat.not_lt_zero _)
  · exact (priority_le_ten_iff f.rule).mp (hpriority.trans hlow)

/-! ## What the report keeps -/

theorem eq_of_mem_reported (hf : f ∈ reported typed findings) (hg : g ∈ reported typed findings)
    (h : g.symbol = f.symbol) : g = f := by
  obtain ⟨f, hbest, rfl⟩ := List.mem_map.mp hf
  obtain ⟨g, hbest', rfl⟩ := List.mem_map.mp hg
  rw [symbol_disclaim, symbol_disclaim] at h
  have hkept := mem_best_iff.mp hbest'
  rw [h] at hkept
  rw [Option.mem_unique hkept (mem_best_iff.mp hbest)]

theorem exists_reported_of_mem (typed : Bool) (h : f ∈ findings) : ∃ g ∈ findings,
    g.disclaim typed ∈ reported typed findings ∧ g.symbol = f.symbol ∧ f.rank ≤ g.rank := by
  obtain ⟨g, hbest, hsymbol, hrank⟩ := exists_best h
  exact ⟨g, (symbol_of_mem_argmax (mem_best_iff.mp hbest)).1, List.mem_map_of_mem hbest, hsymbol, hrank⟩

end Finding

namespace SurfaceChange

variable {threshold : UInt8} {before after : Snapshot} {m : ModifiedSymbol} {kind : SymbolKind} {name : String}

/-- A declaration is listed as modified only for a change inside it. -/
theorem changes_ne_nil (h : m ∈ (between threshold before after).symbols.modified) : m.changes ≠ [] := by
  unfold between at h
  split_ifs at h
  · simp only [SymbolChanges.between, SymbolChanges.ofLists, List.flatMap_map, List.mem_flatMap,
      List.mem_filterMap] at h
    obtain ⟨_, _, _, _, hm⟩ := h
    exact (SymbolChanges.modification?_eq_some_iff.mp hm).2.2.2
  · exact absurd h List.not_mem_nil

/-- A declaration of this kind and name is removed or modified. -/
inductive Touches (change : SurfaceChange) (kind : SymbolKind) : String → Prop where
  | removed {s : Symbol} : s ∈ change.symbols.removed → s.kind = kind → Touches change kind s.name
  | modified {m : ModifiedSymbol} : m ∈ change.symbols.modified → m.after.kind = kind →
      Touches change kind m.after.name

theorem Touches.exists_blames
    (h : (between threshold before after).Touches kind name) :
    ∃ f ∈ Finding.all (between threshold before after), f.Blames kind name := by
  cases h with
  | @removed s hs hkind =>
      refine ⟨_, Finding.ofRemovedSymbol_mem_all hs, by rw [← hkind]; rfl, ?_⟩
      cases hk : s.kind <;> simp [Finding.IsOfAddition, Finding.ofRemovedSymbol, Finding.removalRule, hk]
  | @modified m hm hkind =>
      obtain ⟨c, hc⟩ := List.exists_mem_of_ne_nil _ (changes_ne_nil hm)
      refine ⟨_, Finding.ofDeclarationChange_mem_all hm hc, by rw [← hkind]; rfl, ?_⟩
      exact not_or.mpr (Finding.rule_judge_ne _ m.after.name c)

end SurfaceChange

namespace ImpactReport

variable {change : SurfaceChange} {findings : List Finding} {kind : SymbolKind} {name : String}

theorem mem_ownersOf : name ∈ ownersOf kind findings ↔ ∃ f ∈ findings, f.Blames kind name := by
  rw [ownersOf, Text.mem_sortedDistinct, List.mem_filterMap]
  refine exists_congr fun f => and_congr_right fun _ => ?_
  rw [Option.ite_none_left_eq_some, Finding.Blames, Finding.IsOfAddition, and_comm]
  refine and_congr_left fun _ => ?_
  cases f.owner with
  | none => simp
  | some owner =>
      obtain ⟨kind', name'⟩ := owner
      simp [Option.filter, Prod.ext_iff]

/-- A declaration that some finding is about is not listed just when every such finding is displaced. -/
theorem notMem_ownersOf_reported : name ∉ ownersOf kind (Finding.reported change.typed (Finding.all change)) ↔
    ∀ f ∈ Finding.all change, f.Blames kind name →
      ∃ g ∈ Finding.reported change.typed (Finding.all change), g.Displaces f := by
  rw [mem_ownersOf, not_exists]
  constructor
  · intro hnone f hf hblames
    obtain ⟨g, hg, hkept, hsymbol, hrank⟩ := Finding.exists_reported_of_mem change.typed hf
    refine ⟨_, hkept, by rwa [Finding.symbol_disclaim], by rwa [Finding.rank_disclaim], fun howner => ?_⟩
    rw [Finding.owner_disclaim] at howner
    refine hnone _ ⟨hkept, (Finding.blames_disclaim _).mpr ⟨howner.trans hblames.1, fun hadded => ?_⟩⟩
    exact hblames.2 (hadded.of_rank_le hg hrank)
  · rintro hdisplaced f ⟨hkept, hblames⟩
    obtain ⟨source, hsource, rfl, -⟩ := Finding.exists_of_mem_reported hkept
    obtain ⟨g, hg, hsymbol, -, howner⟩ := hdisplaced source hsource ((Finding.blames_disclaim _).mp hblames)
    have hsame := Finding.eq_of_mem_reported hkept hg (by rw [Finding.symbol_disclaim, hsymbol])
    exact howner (by rw [hsame, Finding.owner_disclaim])

variable {sourceFile : String} {root : Path} {dependents : List Dependent} {tests : List AffectedTest}

theorem ownersOf_of : let report := ImpactReport.of sourceFile change root dependents tests
    report.functions = ownersOf .function report.findings ∧
      report.classes = ownersOf .classType report.findings := by
  intro report
  have hfindings : report.findings = Finding.reported change.typed (Finding.all change) := findings_of
  rw [hfindings]
  by_cases h : change.isEmpty = true
  · have hreport : report = { sourceFile, status := .unchanged } := if_pos h
    rw [Finding.all_eq_nil h, hreport]
    exact ⟨rfl, rfl⟩
  · constructor <;> simp only [report, ImpactReport.of, if_neg h]

/-- Something is found about every function and class that is removed or modified. It is missing from the
report just when whatever is found about it is displaced by a finding about something else. -/
theorem listed_unless_displaced (threshold : UInt8) (before after : Snapshot) (sourceFile : String) (root : Path)
    (dependents : List Dependent) (tests : List AffectedTest) :
    let change := SurfaceChange.between threshold before after
    let report := ImpactReport.of sourceFile change root dependents tests
    let displaced (kind : SymbolKind) (name : String) : Prop :=
      ∀ f ∈ Finding.all change, f.Blames kind name → ∃ g ∈ report.findings, g.Displaces f
    (∀ kind name, change.Touches kind name → ∃ f ∈ Finding.all change, f.Blames kind name) ∧
      (∀ name, name ∉ report.functions ↔ displaced .function name) ∧
      ∀ name, name ∉ report.classes ↔ displaced .classType name := by
  intro change report displaced
  have hfindings : report.findings = Finding.reported change.typed (Finding.all change) := findings_of
  obtain ⟨hfunctions, hclasses⟩ : report.functions = _ ∧ report.classes = _ := ownersOf_of
  refine ⟨fun kind name => SurfaceChange.Touches.exists_blames, fun name => ?_, fun name => ?_⟩
  · rw [hfunctions, hfindings, notMem_ownersOf_reported, ← hfindings]
  · rw [hclasses, hfindings, notMem_ownersOf_reported, ← hfindings]

/-- A function that shares its name with an interface and is removed with it. The one export of the name is that
of the interface, and its removal outranks the removal of the function. -/
theorem listed_unless_displaced_of_interface :
    let declaration (kind : SymbolKind) (line : Nat) (signature : String) (shape : Shape) : Symbol :=
      { name := "User", qualifiedName := "User", kind, line, column := 0, signature, shape }
    let empty : Snapshot := { filePath := "m.ts", language := .typeScript, status := .parsed }
    let before := { empty with
      symbols := [declaration .interface 1 "export interface User" (.interface []),
        declaration .function 2 "export function User()" (.function {})]
      exports := [.named "User" 1 .interface .declarative] }
    let after := { empty with fingerprint := 1 }
    let change := SurfaceChange.between 2 before after
    let report := ImpactReport.of "m.ts" change (.ofString "/p") [] []
    before.HasUniqueIdentities ∧ change.Touches .function "User" ∧ "User" ∉ report.functions ∧
      ∃ f ∈ Finding.all change, f.Blames .function "User" ∧ ∃ g ∈ report.findings, g.Displaces f := by
  intro declaration empty before after change report
  obtain ⟨hblamed, hfunctions, -⟩ :=
    listed_unless_displaced 2 before after "m.ts" (.ofString "/p") [] []
  have hremoved : declaration .function 2 "export function User()" (.function {}) ∈ change.symbols.removed := by
    decide +kernel
  have htouched : change.Touches .function "User" := .removed hremoved rfl
  have hunlisted : "User" ∉ report.functions := by decide +kernel
  obtain ⟨f, hf, hblames⟩ := hblamed _ _ htouched
  exact ⟨⟨by decide, by decide⟩, htouched, hunlisted, f, hf, hblames,
    (hfunctions "User").mp hunlisted f hf hblames⟩

end ImpactReport

end ApiImpact
