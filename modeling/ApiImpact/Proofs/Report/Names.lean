import ApiImpact.Capture
import ApiImpact.Proofs.Report.Owners
import ApiImpact.Proofs.Script.Additions
import ApiImpact.Proofs.Report.Selection
import ApiImpact.Proofs.TypeScript.Additions

/-!
# Changed names

The names that a change is searched by in other files are names that were there before. They include the functions
and classes that the report lists. A declaration is found again by its qualified name and listed by its name, and
these are the same in every snapshot that is taken of a file.
-/

namespace ApiImpact

namespace Snapshot

variable {settings : Settings} {filePath text : String} {manifest : Option String} {s : Snapshot}

/-- Declarations go by one name, and exports that stand for everything of a module name the module. -/
structure IsRegular (s : Snapshot) : Prop where
  exports : ∀ e ∈ s.exports, e.HasSource
  symbols : ∀ symbol ∈ s.symbols, symbol.qualifiedName = symbol.name

theorem isRegular_of_extract {language : Language} (h : Script.extract filePath language text = .ok s) :
    s.IsRegular := by
  have hown {style : ExportStyle} (e : Export) (he : e.IsOwn style) : e.HasSource := Export.hasSource_of_ne he.single
  obtain ⟨-, hexports, hsymbols⟩ := Script.consists_of_extract h (fun _ _ _ => hown) (fun _ _ => hown)
    (fun m _ surface h => Script.Source.consists_addExportClause h m fun e _ hkind => Export.hasSource_of_ne hkind)
    (fun m _ surface h => Script.Source.consists_addExportStar h m fun e _ hmodule _ => hmodule)
    fun _ _ _ _ => hown
  exact ⟨hexports, hsymbols⟩

theorem isRegular_of_capture (h : capture settings filePath text manifest = .ok s) : s.IsRegular := by
  obtain ⟨surface, hsurface, h⟩ := bind_eq_ok_iff.mp h
  cases h
  unfold surfaceOf at hsurface
  have hregular : surface.IsRegular := by
    split_ifs at hsurface
    · cases hsurface
      exact ⟨nofun, nofun⟩
    · cases hsurface
      obtain ⟨hexports, hsymbols⟩ := TypeScript.consists_surface filePath _ text
      exact ⟨hexports, hsymbols⟩
    · exact isRegular_of_extract hsurface
  exact ⟨hregular.exports, hregular.symbols⟩

end Snapshot

variable {threshold : UInt8} {before after : Snapshot}

namespace SymbolChanges

variable {typed : Bool} {xs ys : List Symbol} {s : Symbol} {m : ModifiedSymbol}

theorem mem_of_mem_removed (h : s ∈ (between typed before after).removed) : s ∈ before.symbols := by
  simp only [between, List.flatMap_map, List.mem_flatMap, ofLists, missing_byName] at h
  obtain ⟨shelf, -, h⟩ := h
  obtain ⟨⟨name, other⟩, hm, rfl⟩ := List.mem_map.mp h
  have hentry := getElem?_of_mem_toList (List.mem_filter.mp hm).1
  exact (Snapshot.mem_shelf.mp (mem_of_getElem?_indexBy hentry).1).1

theorem mem_of_mem_modified (h : m ∈ (between typed before after).modified) :
    m.before ∈ before.symbols ∧ m.after ∈ after.symbols ∧ m.after.qualifiedName = m.before.qualifiedName := by
  simp only [between, List.flatMap_map, List.mem_flatMap, ofLists] at h
  obtain ⟨shelf, -, h⟩ := h
  obtain ⟨⟨name, old⟩, hm, hmodified⟩ := List.mem_filterMap.mp h
  obtain ⟨hbefore, hafter, -⟩ := modification?_eq_some_iff.mp hmodified
  have hold := mem_of_getElem?_indexBy (getElem?_of_mem_toList hm)
  have hnew := mem_of_getElem?_indexBy hafter
  rw [hbefore]
  exact ⟨(Snapshot.mem_shelf.mp hold.1).1, (Snapshot.mem_shelf.mp hnew.1).1, hnew.2.trans hold.2.symm⟩

end SymbolChanges

namespace ExportChanges

theorem mem_of_mem_onlyIn {e : Export} (h : e ∈ onlyIn before after) : e ∈ before.exports := by
  obtain ⟨⟨key, other⟩, hm, rfl⟩ := List.mem_map.mp h
  exact (mem_of_getElem?_indexBy (getElem?_of_mem_toList (List.mem_filter.mp hm).1)).1

theorem mem_of_mem_removed {r : RemovedExport} (h : r ∈ (between threshold before after).removed) :
    r.was ∈ before.exports ∧ r.refersToClass = refersToClass before r.was := by
  obtain ⟨e, hm, rfl⟩ := List.mem_map.mp h
  exact ⟨mem_of_mem_onlyIn (List.mem_filter.mp hm).1, rfl⟩

theorem mem_of_mem_modified {m : ModifiedExport} (h : m ∈ (between threshold before after).modified) :
    m.before ∈ before.exports := by
  rw [modified_eq, List.mem_append] at h
  rcases h with h | h
  · obtain ⟨⟨key, e⟩, hm, hchange⟩ := List.mem_filterMap.mp h
    rw [(kindChange?_eq_some_iff.mp hchange).1]
    exact (mem_of_getElem?_indexBy (getElem?_of_mem_toList hm)).1
  · obtain ⟨⟨r, a⟩, hm, rfl⟩ := List.mem_map.mp h
    exact mem_of_mem_onlyIn (mem_pairs_iff_partner?.mp hm).1

end ExportChanges

namespace SurfaceChange

variable {name : String}

/-- The name is one of a declaration or export. -/
def IsNameIn (s : Snapshot) (name : String) : Prop :=
  (∃ symbol ∈ s.symbols, symbol.name = name) ∨ ∃ e ∈ s.exports, e.displayName = name ∨ e.name = name

theorem mem_changedNames {change : SurfaceChange} : name ∈ change.changedNames ↔ name ≠ "*" ∧
    ((∃ s ∈ change.symbols.removed, s.name = name) ∨ (∃ m ∈ change.symbols.modified, m.before.name = name) ∨
      (∃ r ∈ change.exports.removed, r.was.displayName = name ∨ r.was.name = name) ∨
        ∃ m ∈ change.exports.modified, m.before.displayName = name ∨ m.before.name = name) := by
  simp only [changedNames, exportNames, Text.mem_sortedDistinct, List.mem_filter, List.mem_append, List.mem_map,
    List.mem_flatMap, List.mem_cons, List.not_mem_nil, or_false, bne_iff_ne, or_assoc, @eq_comm _ name]
  exact and_comm

theorem isNameIn_of_mem_changedNames (h : name ∈ (between threshold before after).changedNames) :
    IsNameIn before name := by
  obtain ⟨-, h⟩ := mem_changedNames.mp h
  unfold between at h
  split_ifs at h
  · rcases h with ⟨s, hs, rfl⟩ | ⟨m, hm, rfl⟩ | ⟨r, hr, hname⟩ | ⟨m, hm, hname⟩
    · exact .inl ⟨s, SymbolChanges.mem_of_mem_removed hs, rfl⟩
    · exact .inl ⟨m.before, (SymbolChanges.mem_of_mem_modified hm).1, rfl⟩
    · exact .inr ⟨r.was, (ExportChanges.mem_of_mem_removed hr).1, hname⟩
    · exact .inr ⟨m.before, ExportChanges.mem_of_mem_modified hm, hname⟩
  · simp at h

theorem name_after_eq (hb : before.IsRegular) (ha : after.IsRegular) {m : ModifiedSymbol}
    (h : m ∈ (between threshold before after).symbols.modified) : m.after.name = m.before.name := by
  unfold between at h
  split_ifs at h
  · obtain ⟨hbefore, hafter, hname⟩ := SymbolChanges.mem_of_mem_modified h
    rw [← ha.symbols _ hafter, hname, hb.symbols _ hbefore]
  · cases h

/-- An export that speaks for a function or class is filed under the name it is spoken of by. -/
theorem findingSymbol_of_ownerKind? (hb : before.IsRegular) {r : RemovedExport}
    (h : r ∈ (between threshold before after).exports.removed)
    (howner : Finding.ownerKind? r.was.kind r.refersToClass ≠ none) : r.was.findingSymbol = r.was.displayName := by
  unfold between at h
  split_ifs at h
  · obtain ⟨hmem, hclass⟩ := ExportChanges.mem_of_mem_removed h
    refine if_neg fun hbare => howner ?_
    obtain ⟨module, hmodule⟩ := Option.isSome_iff_exists.mp (hb.exports _ hmem hbare.1)
    rw [hclass, ExportChanges.refersToClass, hbare.1, hmodule]
    rfl
  · cases h

/-- What a finding blames is a name that is searched by. -/
theorem mem_changedNames_of_blames (hb : before.IsRegular) (ha : after.IsRegular) {f : Finding} {kind : SymbolKind}
    (hf : f ∈ Finding.all (between threshold before after)) (hblames : f.Blames kind name) (hne : name ≠ "*") :
    name ∈ (between threshold before after).changedNames := by
  refine mem_changedNames.mpr ⟨hne, ?_⟩
  obtain ⟨howner, hremoval⟩ := hblames
  rcases Finding.mem_all_iff.mp hf with ⟨s, hs, rfl⟩ | ⟨s, hs, rfl⟩ | ⟨m, hm, c, hc, rfl⟩ | ⟨r, hr, rfl⟩ |
    ⟨m, hm, rfl⟩ | ⟨e, he, rfl⟩ | ⟨c, hc, rfl⟩ | ⟨c, hc, rfl⟩
  · exact .inl ⟨s, hs, (Prod.mk.inj (Option.some.inj howner)).2⟩
  · exact absurd (.inl rfl) hremoval
  · exact .inr (.inl ⟨m, hm, (name_after_eq hb ha hm).symm.trans (Prod.mk.inj (Option.some.inj howner)).2⟩)
  · obtain ⟨kind', hkind, hpair⟩ := Option.map_eq_some_iff.mp howner
    have hsymbol := findingSymbol_of_ownerKind? hb hr (by simp [hkind])
    exact .inr (.inr (.inl ⟨r, hr, .inl (hsymbol.symm.trans (Prod.mk.inj hpair).2)⟩))
  · obtain ⟨kind', hkind, hpair⟩ := Option.map_eq_some_iff.mp howner
    have hsymbol : m.before.findingSymbol = m.before.displayName := by
      refine if_neg fun hbare => ?_
      rw [hbare.1] at hkind
      cases hkind
    exact .inr (.inr (.inr ⟨m, hm, .inl (hsymbol.symm.trans (Prod.mk.inj hpair).2)⟩))
  · exact absurd (.inr rfl) hremoval
  · cases c <;> cases howner
  · cases howner

end SurfaceChange

namespace ImpactReport

/-- The names of a change between two snapshots of a file are in order, and are names of the first one. The
functions and classes in the report are among them. -/
theorem listed_names_changed {settings settings' : Settings} {filePath text text' : String}
    {manifest manifest' : Option String} (threshold : UInt8)
    (hbefore : Snapshot.capture settings filePath text manifest = .ok before)
    (hafter : Snapshot.capture settings' filePath text' manifest' = .ok after) (sourceFile : String) (root : Path)
    (dependents : List Dependent) (tests : List AffectedTest) :
    let change := SurfaceChange.between threshold before after
    let report := ImpactReport.of sourceFile change root dependents tests
    (∀ name ∈ report.functions ++ report.classes, name ≠ "*" → name ∈ change.changedNames) ∧
      change.changedNames.Pairwise (· < ·) ∧ ∀ name ∈ change.changedNames, SurfaceChange.IsNameIn before name := by
  intro change report
  have hb := Snapshot.isRegular_of_capture hbefore
  have ha := Snapshot.isRegular_of_capture hafter
  have hfindings : report.findings = Finding.reported change.typed (Finding.all change) := findings_of
  obtain ⟨hfunctions, hclasses⟩ : report.functions = _ ∧ report.classes = _ := ownersOf_of
  have howned (kind : SymbolKind) (name : String) (h : name ∈ ownersOf kind report.findings) (hne : name ≠ "*") :
      name ∈ change.changedNames := by
    obtain ⟨f, hf, hblames⟩ := mem_ownersOf.mp h
    rw [hfindings] at hf
    obtain ⟨source, hsource, rfl, -⟩ := Finding.exists_of_mem_reported hf
    exact SurfaceChange.mem_changedNames_of_blames hb ha hsource ((Finding.blames_disclaim _).mp hblames) hne
  refine ⟨fun name hname hne => ?_, Text.pairwise_sortedDistinct _, fun name => SurfaceChange.isNameIn_of_mem_changedNames⟩
  rw [hfunctions, hclasses, List.mem_append] at hname
  exact hname.elim (howned _ name · hne) (howned _ name · hne)

/-- A function that is gone. -/
theorem listed_names_changed_of_function :
    let text := "export function load(path) {}\n"
    ∃ before after, Snapshot.capture {} "m.js" text none = .ok before ∧
      Snapshot.capture {} "m.js" "" none = .ok after ∧
      let change := SurfaceChange.between 2 before after
      let report := ImpactReport.of "m.js" change (.ofString "/p") [] []
      report.functions = ["load"] ∧ "load" ∈ change.changedNames := by
  intro text
  obtain ⟨before, hbefore⟩ := isOk_iff.mp (by decide +kernel : (Snapshot.capture {} "m.js" text none).isOk = true)
  obtain ⟨after, hafter⟩ := isOk_iff.mp (by decide +kernel : (Snapshot.capture {} "m.js" "" none).isOk = true)
  refine ⟨before, after, hbefore, hafter, ?_⟩
  intro change report
  have hfunctions : report.functions = ["load"] := by
    have hcomputed : (Snapshot.capture {} "m.js" text none).toOption.any (fun before =>
        (Snapshot.capture {} "m.js" "" none).toOption.any fun after =>
          (ImpactReport.of "m.js" (SurfaceChange.between 2 before after) (.ofString "/p") [] []).functions = ["load"]) =
        true := by decide +kernel
    rw [hbefore, hafter] at hcomputed
    exact of_decide_eq_true hcomputed
  have hlisted := (listed_names_changed 2 hbefore hafter "m.js" (.ofString "/p") [] []).1 "load"
  refine ⟨hfunctions, hlisted (List.mem_append_left _ ?_) (by decide)⟩
  change "load" ∈ report.functions
  rw [hfunctions]
  exact List.mem_singleton_self _

end ImpactReport

end ApiImpact
