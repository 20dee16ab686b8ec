import ApiImpact.Proofs.Change.Extension

/-!
# Surfaces of one structure

Only the structure of a surface is compared: which declarations there are and in which shape, and which exports
there are and of which kind. Where they stand, how they are written and in which order does not count. A
surface has the structure of itself, also when two of its entries share an identity: then the same entry is
taken on both sides.
-/

namespace ApiImpact

/-- The surfaces have the same declarations in the same shapes, and the same exports of the same kinds. -/
structure Snapshot.SharesStructure (before after : Snapshot) : Prop where
  symbols : Correspond Symbol.identity Symbol.shape before.symbols after.symbols
  exports : Correspond Export.key Export.kind before.exports after.exports
  manifest : after.manifest = before.manifest
  moduleSystem : after.moduleSystem = before.moduleSystem

theorem Snapshot.SharesStructure.shelf {before after : Snapshot} (h : before.SharesStructure after) (shelf : Shelf) :
    Correspond Symbol.qualifiedName Symbol.shape (before.shelf shelf) (after.shelf shelf) where
  right := by
    intro s hs
    obtain ⟨hmem, rfl⟩ := Snapshot.mem_shelf.mp hs
    obtain ⟨t, ht, hid⟩ := h.symbols.right s hmem
    exact ⟨t, Snapshot.mem_shelf.mpr ⟨ht, (Prod.ext_iff.mp hid).1⟩, (Prod.ext_iff.mp hid).2⟩
  left := by
    intro t ht
    obtain ⟨hmem, rfl⟩ := Snapshot.mem_shelf.mp ht
    obtain ⟨s, hs, hid⟩ := h.symbols.left t hmem
    exact ⟨s, Snapshot.mem_shelf.mpr ⟨hs, (Prod.ext_iff.mp hid).1⟩, (Prod.ext_iff.mp hid).2⟩
  alike := by
    intro s hs t ht hname
    obtain ⟨hs, hshelf⟩ := Snapshot.mem_shelf.mp hs
    obtain ⟨ht, hshelf'⟩ := Snapshot.mem_shelf.mp ht
    exact h.symbols.alike s hs t ht (Prod.ext (hshelf.trans hshelf'.symm) hname)

/-! ## Declarations -/

theorem ParameterChange.ofLists_self (typed : Bool) (params : List Parameter) :
    ofLists typed params params = [] :=
  ofLists_eq_nil ⟨[], (List.append_nil params).symm, by simp⟩

namespace DeclarationChange

theorem ofProperties_self (properties : List Property) : ofProperties properties properties = [] := by
  rw [ofProperties, List.append_eq_nil_iff, List.flatMap_eq_nil_iff, List.map_eq_nil_iff,
    List.filter_eq_nil_iff]
  constructor
  · rintro ⟨name, p⟩ hm
    simp [getElem?_of_mem_toList hm, ofProperty_self]
  · rintro ⟨name, p⟩ hm
    simp [contains_of_mem_toList hm]

theorem ofShapes_self (typed : Bool) (shape : Shape) : ofShapes typed shape shape = [] := by
  cases shape with
  | function shape => cases typed <;> simp [ofShapes, ofFunctions, ParameterChange.ofLists_self, ofReturnTypes_self]
  | classType shape =>
      cases hc : shape.constructor <;>
        simp [ofShapes, ofClasses, missing_eq_nil (List.Subset.refl _), ofConstructors, hc,
          ParameterChange.ofLists_self]
  | interface properties => exact ofProperties_self properties
  | typeAlias definition => simp [ofShapes]
  | enumeration members => simp [ofShapes, missing_eq_nil (List.Subset.refl _)]
  | binding => rfl

end DeclarationChange

/-! ## Surfaces -/

theorem SymbolChanges.ofLists_eq_empty {xs ys : List Symbol} (h : LookAlike Symbol.qualifiedName Symbol.shape xs ys)
    (typed : Bool) : ofLists typed xs ys = {} := by
  simp only [ofLists, missing_byName, h.unmatched_eq_nil, h.symm.unmatched_eq_nil, SymbolChanges.mk.injEq, true_and]
  rw [List.filterMap_eq_nil_iff]
  rintro ⟨name, old⟩ hm
  obtain ⟨new, hget, hshape⟩ := h.exists_getElem? hm
  have hget : (byName ys)[name]? = some new := hget
  simp [modification?, hget, hshape, DeclarationChange.ofShapes_self]

theorem SymbolChanges.isEmpty_between {before after : Snapshot}
    (h : ∀ shelf, LookAlike Symbol.qualifiedName Symbol.shape (before.shelf shelf) (after.shelf shelf)) (typed : Bool) :
    (between typed before after).isEmpty = true := by
  simp [isEmpty, between, ofLists_eq_empty (h _)]

namespace ExportChanges

variable {before after : Snapshot}

theorem kindChanges_eq_nil (h : LookAlike Export.key Export.kind before.exports after.exports) :
    kindChanges before after = [] := by
  rw [kindChanges, List.filterMap_eq_nil_iff]
  rintro ⟨key, e⟩ hm
  obtain ⟨new, hget, hkind⟩ := h.exists_getElem? hm
  simp [kindChange?, hget, hkind]

theorem isEmpty_between (h : LookAlike Export.key Export.kind before.exports after.exports) (threshold : UInt8) :
    (between threshold before after).isEmpty = true := by
  have hgone : onlyIn before after = [] := h.unmatched_eq_nil
  have hnew : onlyIn after before = [] := h.symm.unmatched_eq_nil
  have hremoved : (between threshold before after).removed = [] := by
    rw [← List.map_eq_nil_iff, map_was_removed, hgone]
    rfl
  rw [isEmpty, added_eq, hremoved, modified_eq, kindChanges_eq_nil h, transitions, hgone, hnew]
  rfl

end ExportChanges

namespace SurfaceChange

variable {before after : Snapshot}

theorem isEmpty_between_of_lookAlike
    (hsymbols : ∀ shelf, LookAlike Symbol.qualifiedName Symbol.shape (before.shelf shelf) (after.shelf shelf))
    (hexports : LookAlike Export.key Export.kind before.exports after.exports)
    (hmanifest : after.manifest = before.manifest) (hsystem : after.moduleSystem = before.moduleSystem)
    (threshold : UInt8) : (between threshold before after).isEmpty = true := by
  unfold between
  split_ifs
  · simp [isEmpty, SymbolChanges.isEmpty_between hsymbols, ExportChanges.isEmpty_between hexports, hmanifest, hsystem,
      PackageChange.between_self, ModuleSystemChange.between?_self]
  · rfl

/-- Snapshots that differ in nothing but the contents they were taken of are compared as equal. -/
theorem isEmpty_between_fingerprint (threshold : UInt8) (s : Snapshot) (fingerprint : UInt64) :
    (between threshold s { s with fingerprint }).isEmpty = true := by
  have hsymbols (shelf : Shelf) : LookAlike Symbol.qualifiedName Symbol.shape (s.shelf shelf)
      (({ s with fingerprint } : Snapshot).shelf shelf) := lookAlike_self _ _ _
  have hexports : LookAlike Export.key Export.kind s.exports ({ s with fingerprint } : Snapshot).exports :=
    lookAlike_self _ _ _
  exact isEmpty_between_of_lookAlike hsymbols hexports rfl rfl threshold

/-- Nothing changed between surfaces of one structure, whatever their languages and contents are and wherever
their declarations stand, nor between a surface and itself. -/
theorem structure_alone_counts :
    (∀ (before after : Snapshot) (threshold : UInt8), before.SharesStructure after →
      (between threshold before after).isEmpty = true) ∧
    ∀ (s : Snapshot) (threshold : UInt8) (fingerprint : UInt64),
      (between threshold s { s with fingerprint }).isEmpty = true := by
  refine ⟨fun before after threshold h => ?_, fun s threshold fingerprint => ?_⟩
  · exact isEmpty_between_of_lookAlike (fun shelf => (h.shelf shelf).lookAlike) h.exports.lookAlike h.manifest
      h.moduleSystem threshold
  · exact isEmpty_between_fingerprint threshold s fingerprint

/-- A script that moved its declarations about and exports them in another way. -/
theorem structure_alone_counts_of_moved :
    let open_ (line column : Nat) (signature : String) : Symbol :=
      { name := "open", qualifiedName := "open", kind := .function, line, column, signature
        shape := .function { params := [{ name := "path" }] } }
    let store (line : Nat) (signature : String) : Symbol :=
      { name := "Store", qualifiedName := "Store", kind := .classType, line, column := 0, signature
        shape := .classType { methods := ["get", "put"] } }
    let before : Snapshot :=
      { filePath := "m.js", language := .javaScript, status := .parsed, fingerprint := 1
        symbols := [open_ 1 0 "export function open(path)", store 2 "export class Store"]
        exports := [.named "open" 1 .function .declarative, .named "Store" 2 .classType .declarative] }
    let after : Snapshot :=
      { filePath := "m.js", language := .jsx, status := .parsed, fingerprint := 2
        symbols := [store 4 "class Store", open_ 9 2 "function open(path)"]
        exports := [{ Export.named "Store" 12 .classType .assignment with sourceName := some "Store" },
          .named "open" 12 .function .assignment] }
    isComparable before after = true ∧ before.SharesStructure after ∧ (between 2 before after).isEmpty = true := by
  intro open_ store before after
  have h : before.SharesStructure after :=
    { symbols := ⟨by decide, by decide, by decide⟩
      exports := ⟨by decide, by decide, by decide⟩
      manifest := rfl
      moduleSystem := rfl }
  exact ⟨by decide, h, structure_alone_counts.1 before after 2 h⟩

end SurfaceChange

end ApiImpact
