import ApiImpact.Proofs.Change.Exports
import ApiImpact.Proofs.Change.Symbols
import ApiImpact.Report.Basic

/-!
# The order of declarations

In a surface without repeated identities no comparison depends on the order in which declarations and exports are
listed: they are looked up by identity, and what is listed of them is listed by identity.
-/

namespace ApiImpact

/-- The second surface lists the declarations and exports of the first in another order. -/
structure Snapshot.Reorders (s s' : Snapshot) : Prop where
  symbols : ∀ shelf, (s'.shelf shelf).Perm (s.shelf shelf)
  exports : s'.exports.Perm s.exports
  rest : s' = { s with symbols := s'.symbols, exports := s'.exports }

variable {before before' after after' s s' : Snapshot}

theorem SymbolChanges.between_of_reorders (hb : before.HasUniqueIdentities) (ha : after.HasUniqueIdentities)
    (h : before.Reorders before') (h' : after.Reorders after') (typed : Bool) :
    between typed before' after' = between typed before after := by
  have hlists (shelf : Shelf) : ofLists typed (before'.shelf shelf) (after'.shelf shelf) =
      ofLists typed (before.shelf shelf) (after.shelf shelf) := by
    have hold : byName (before'.shelf shelf) = byName (before.shelf shelf) :=
      indexBy_perm (Snapshot.nodup_shelf hb.symbols shelf) (h.symbols shelf)
    have hnew : byName (after'.shelf shelf) = byName (after.shelf shelf) :=
      indexBy_perm (Snapshot.nodup_shelf ha.symbols shelf) (h'.symbols shelf)
    rw [ofLists, ofLists, hold, hnew]
  simp only [between, hlists]

namespace ExportChanges

theorem refersToClass_of_reorders (h : s.Reorders s') (e : Export) : refersToClass s' e = refersToClass s e := by
  rw [refersToClass, refersToClass, Snapshot.classes, Snapshot.classes, (h.symbols .classes).any_eq]

theorem between_of_reorders (hb : before.HasUniqueIdentities) (ha : after.HasUniqueIdentities)
    (h : before.Reorders before') (h' : after.Reorders after') (threshold : UInt8) :
    between threshold before' after' = between threshold before after := by
  have hold : byKey before'.exports = byKey before.exports := indexBy_perm hb.exports h.exports
  have hnew : byKey after'.exports = byKey after.exports := indexBy_perm ha.exports h'.exports
  simp only [between, hold, hnew, refersToClass_of_reorders h]

end ExportChanges

namespace SurfaceChange

theorem isComparable_of_reorders (h : before.Reorders before') (h' : after.Reorders after') :
    isComparable before' after' = isComparable before after := by
  rw [h.rest, h'.rest]
  rfl

/-- Surfaces whose declarations and exports are listed in another order differ in the same way, and the report
about the change is the same. -/
theorem order_does_not_count (hb : before.HasUniqueIdentities) (ha : after.HasUniqueIdentities)
    (h : before.Reorders before') (h' : after.Reorders after') (threshold : UInt8) :
    between threshold before' after' = between threshold before after ∧
      ∀ (sourceFile : String) (root : Path) (dependents : List Dependent) (tests : List AffectedTest),
        ImpactReport.of sourceFile (between threshold before' after') root dependents tests =
          ImpactReport.of sourceFile (between threshold before after) root dependents tests := by
  have hchange : between threshold before' after' = between threshold before after := by
    rw [between, between, isComparable_of_reorders h h']
    split_ifs
    · have hlanguage : before'.language = before.language := by rw [h.rest]
      have hlanguage' : after'.language = after.language := by rw [h'.rest]
      have hmanifest : before'.manifest = before.manifest := by rw [h.rest]
      have hmanifest' : after'.manifest = after.manifest := by rw [h'.rest]
      have hsystem : before'.moduleSystem = before.moduleSystem := by rw [h.rest]
      have hsystem' : after'.moduleSystem = after.moduleSystem := by rw [h'.rest]
      simp only [hlanguage, hlanguage', hmanifest, hmanifest', hsystem, hsystem',
        SymbolChanges.between_of_reorders hb ha h h', ExportChanges.between_of_reorders hb ha h h']
    · rfl
  exact ⟨hchange, fun _ _ _ _ => by rw [hchange]⟩

/-- A default export that became a named one, beside an export that is gone, listed in two orders. -/
theorem order_does_not_count_of_moved :
    let function (name : String) (line : Nat) : Symbol :=
      { name, qualifiedName := name, kind := .function, line, column := 0, signature := "function " ++ name
        shape := .function {} }
    let empty : Snapshot := { filePath := "m.js", language := .javaScript, status := .parsed }
    let load : Export := .default 1 .function (some "load") .declarative
    let save : Export := .named "save" 2 .function .declarative
    let before := { empty with symbols := [function "load" 1, function "save" 2], exports := [load, save] }
    let before' := { empty with symbols := [function "save" 2, function "load" 1], exports := [save, load] }
    let after := { empty with fingerprint := 1, symbols := [function "load" 1]
                              exports := [.named "load" 1 .function .declarative] }
    before.HasUniqueIdentities ∧ after.HasUniqueIdentities ∧ before.Reorders before' ∧ after.Reorders after ∧
      (between 2 before after).isEmpty = false ∧ between 2 before' after = between 2 before after := by
  intro function empty load save before before' after
  have hb : before.HasUniqueIdentities := ⟨by decide, by decide⟩
  have ha : after.HasUniqueIdentities := ⟨by decide, by decide⟩
  have hsymbols : before'.symbols.Perm before.symbols := .swap _ _ _
  have h : before.Reorders before' := ⟨fun _ => hsymbols.filter _, .swap _ _ _, rfl⟩
  have h' : after.Reorders after := ⟨fun _ => .refl _, .refl _, rfl⟩
  exact ⟨hb, ha, h, h', by decide +kernel, (order_does_not_count hb ha h h' 2).1⟩

end SurfaceChange

end ApiImpact
