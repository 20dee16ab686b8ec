import Mathlib.Data.List.Nodup
import ApiImpact.Change.Declaration
import ApiImpact.Proofs.Change.Index
import ApiImpact.Surface.Snapshot

/-!
# Which declarations count as removed, added and modified

In snapshots without repeated identities every declaration is compared with the one of its identity on
the other side, and with no other.
-/

/-!
## Unique identities

A snapshot that grows by `addSymbol` and `addExport` has one symbol and one export of each identity.
-/

namespace ApiImpact

/-- What makes two symbols the same one: the list it is kept in and the qualified name. -/
def Symbol.identity (s : Symbol) : Shelf × String :=
  (s.shelf, s.qualifiedName)

namespace Snapshot

variable {s : Snapshot} {symbol : Symbol} {e : Export} {shelf : Shelf}

/-- No two symbols and no two exports of the snapshot share an identity. -/
structure HasUniqueIdentities (s : Snapshot) : Prop where
  symbols : (s.symbols.map Symbol.identity).Nodup
  exports : (s.exports.map Export.key).Nodup

theorem hasUniqueIdentities_of_nil (hsymbols : s.symbols = []) (hexports : s.exports = []) :
    s.HasUniqueIdentities :=
  ⟨by simp [hsymbols], by simp [hexports]⟩

theorem mem_shelf : symbol ∈ s.shelf shelf ↔ symbol ∈ s.symbols ∧ symbol.shelf = shelf := by
  simp [Snapshot.shelf]

theorem HasUniqueIdentities.addSymbol (h : s.HasUniqueIdentities) (symbol : Symbol) :
    (s.addSymbol symbol).HasUniqueIdentities := by
  unfold Snapshot.addSymbol
  split_ifs with hany
  · exact h
  · have hnew : symbol.identity ∉ s.symbols.map Symbol.identity := by
      intro hm
      obtain ⟨other, ho, hid⟩ := List.mem_map.mp hm
      obtain ⟨hshelf, hname⟩ := Prod.ext_iff.mp hid
      exact hany (List.any_eq_true.mpr ⟨other, mem_shelf.mpr ⟨ho, hshelf⟩, beq_iff_eq.mpr hname⟩)
    exact ⟨by simpa using List.Nodup.concat hnew h.symbols, h.exports⟩

theorem HasUniqueIdentities.addExport (h : s.HasUniqueIdentities) (e : Export) :
    (s.addExport e).HasUniqueIdentities := by
  unfold Snapshot.addExport
  split_ifs with hany
  · exact h
  · have hnew : e.key ∉ s.exports.map Export.key := by
      intro hm
      obtain ⟨other, ho, hkey⟩ := List.mem_map.mp hm
      exact hany (List.any_eq_true.mpr ⟨other, ho, beq_iff_eq.mpr hkey⟩)
    exact ⟨h.symbols, by simpa using List.Nodup.concat hnew h.exports⟩

/-- The symbols of one list differ in their qualified names. -/
theorem nodup_shelf (h : (s.symbols.map Symbol.identity).Nodup) (shelf : Shelf) :
    ((s.shelf shelf).map (·.qualifiedName)).Nodup := by
  have hsymbols := List.pairwise_map.mp h
  refine List.pairwise_map.mpr ((hsymbols.filter _).imp_of_mem fun ha hb hne he => hne ?_)
  exact Prod.ext ((mem_shelf.mp ha).2.trans (mem_shelf.mp hb).2.symm) he

end Snapshot

/-! ## Matching -/

theorem Shelf.mem_all (shelf : Shelf) : shelf ∈ Shelf.all := by
  cases shelf <;> decide

namespace SymbolChanges

variable {typed : Bool} {before after : Snapshot} {s : Symbol} {m : ModifiedSymbol}

theorem missing_byName (xs ys : List Symbol) :
    missing (byName xs) (byName ys) = unmatched (·.qualifiedName) xs ys := rfl

theorem modification?_eq_some_iff {others : Std.ExtTreeMap String Symbol} {name : String} :
    modification? typed others name s = some m ↔
      m.before = s ∧ others[name]? = some m.after ∧
        m.changes = DeclarationChange.ofShapes typed s.shape m.after.shape ∧ m.changes ≠ [] := by
  obtain ⟨old, new, changes⟩ := m
  simp only [modification?, Option.bind_eq_bind, Option.bind_eq_some_iff, Option.ite_none_left_eq_some,
    List.isEmpty_iff, Option.some.injEq, ModifiedSymbol.mk.injEq]
  constructor
  · rintro ⟨after, hget, hne, rfl, rfl, rfl⟩
    exact ⟨rfl, hget, rfl, hne⟩
  · rintro ⟨rfl, hget, rfl, hne⟩
    exact ⟨new, hget, hne, rfl, rfl, rfl⟩

section

variable {xs ys : List Symbol}

theorem mem_removed_ofLists (hx : (xs.map (·.qualifiedName)).Nodup) :
    s ∈ (ofLists typed xs ys).removed ↔ s ∈ xs ∧ ∀ t ∈ ys, t.qualifiedName ≠ s.qualifiedName := by
  simpa only [ofLists, missing_byName] using mem_unmatched hx

theorem mem_modified_ofLists (hx : (xs.map (·.qualifiedName)).Nodup)
    (hy : (ys.map (·.qualifiedName)).Nodup) :
    m ∈ (ofLists typed xs ys).modified ↔
      m.before ∈ xs ∧ m.after ∈ ys ∧ m.after.qualifiedName = m.before.qualifiedName ∧
        m.changes = DeclarationChange.ofShapes typed m.before.shape m.after.shape ∧ m.changes ≠ [] := by
  have hold (name : String) (old : Symbol) :
      (name, old) ∈ (byName xs).toList ↔ old ∈ xs ∧ old.qualifiedName = name := mem_toList_indexBy hx
  have hnew (name : String) (new : Symbol) :
      (byName ys)[name]? = some new ↔ new ∈ ys ∧ new.qualifiedName = name := getElem?_indexBy hy
  simp only [ofLists, List.mem_filterMap, Prod.exists, hold, modification?_eq_some_iff, hnew]
  constructor
  · rintro ⟨_, _, ⟨hb, rfl⟩, rfl, ⟨ha, hname⟩, hchanges⟩
    exact ⟨hb, ha, hname, hchanges⟩
  · rintro ⟨hb, ha, hname, hchanges⟩
    exact ⟨_, _, ⟨hb, rfl⟩, rfl, ⟨ha, hname⟩, hchanges⟩

end

theorem mem_removed (hb : (before.symbols.map Symbol.identity).Nodup) :
    s ∈ (between typed before after).removed ↔
      s ∈ before.symbols ∧ ∀ t ∈ after.symbols, t.identity ≠ s.identity := by
  simp only [between, List.flatMap_map, List.mem_flatMap, mem_removed_ofLists (Snapshot.nodup_shelf hb _),
    Snapshot.mem_shelf, Symbol.identity, Ne, Prod.mk.injEq, not_and]
  constructor
  · rintro ⟨shelf, -, ⟨hs, rfl⟩, hnone⟩
    exact ⟨hs, fun t ht hshelf => hnone t ⟨ht, hshelf⟩⟩
  · rintro ⟨hs, hnone⟩
    exact ⟨s.shelf, Shelf.mem_all _, ⟨hs, rfl⟩, fun t ⟨ht, hshelf⟩ => hnone t ht hshelf⟩

theorem mem_modified (hb : (before.symbols.map Symbol.identity).Nodup)
    (ha : (after.symbols.map Symbol.identity).Nodup) :
    m ∈ (between typed before after).modified ↔
      m.before ∈ before.symbols ∧ m.after ∈ after.symbols ∧ m.after.identity = m.before.identity ∧
        m.changes = DeclarationChange.ofShapes typed m.before.shape m.after.shape ∧ m.changes ≠ [] := by
  simp only [between, List.flatMap_map, List.mem_flatMap,
    mem_modified_ofLists (Snapshot.nodup_shelf hb _) (Snapshot.nodup_shelf ha _), Snapshot.mem_shelf, Symbol.identity,
    Prod.mk.injEq]
  constructor
  · rintro ⟨shelf, -, ⟨hb, rfl⟩, ⟨ha, hshelf⟩, hname, hchanges⟩
    exact ⟨hb, ha, ⟨hshelf, hname⟩, hchanges⟩
  · rintro ⟨hb, ha, ⟨hshelf, hname⟩, hchanges⟩
    exact ⟨_, Shelf.mem_all _, ⟨hb, rfl⟩, ⟨ha, hshelf⟩, hname, hchanges⟩

end SymbolChanges

end ApiImpact

/-!
## Every declaration is accounted for once

In snapshots without repeated identities the changes split the declarations. One that was there before is removed,
modified or unchanged, by what stands under its identity afterwards; one that is there afterwards is added just when its
identity is new. No identity is listed twice, and read backwards the added declarations are the removed ones.
-/

namespace ApiImpact.SymbolChanges

variable {typed : Bool} {before after : Snapshot} {s : Symbol} {m : ModifiedSymbol} {xs ys : List Symbol}

/-- Read backwards the changes add what they remove, and remove what they add. -/
theorem between_swap (typed : Bool) (before after : Snapshot) :
    (between typed after before).added = (between typed before after).removed ∧
      (between typed after before).removed = (between typed before after).added := by
  simp only [between, ofLists, List.flatMap_map, and_self]

theorem mem_added (ha : (after.symbols.map Symbol.identity).Nodup) :
    s ∈ (between typed before after).added ↔
      s ∈ after.symbols ∧ ∀ t ∈ before.symbols, t.identity ≠ s.identity := by
  rw [← (between_swap typed before after).2]
  exact mem_removed ha

/-! ## Nothing is listed twice -/

/-- Lists for each shelf, of symbols that are kept there, have no identity in common. -/
theorem nodup_identities_flatMap {listed : Shelf → List Symbol} (hshelf : ∀ shelf, ∀ s ∈ listed shelf, s.shelf = shelf)
    (hnames : ∀ shelf, ((listed shelf).map (·.qualifiedName)).Nodup) :
    ((Shelf.all.flatMap listed).map Symbol.identity).Nodup := by
  rw [List.map_flatMap, List.nodup_flatMap]
  constructor
  · intro shelf _
    refine List.pairwise_map.mpr ((List.pairwise_map.mp (hnames shelf)).imp fun hne he => hne ?_)
    exact (Prod.ext_iff.mp he).2
  · have hall : Shelf.all.Nodup := by decide
    refine hall.imp fun {one other} hne => ?_
    rintro identity hone hother
    obtain ⟨s, hs, rfl⟩ := List.mem_map.mp hone
    obtain ⟨t, ht, he⟩ := List.mem_map.mp hother
    refine hne ?_
    rw [← hshelf one s hs, ← hshelf other t ht]
    exact (Prod.ext_iff.mp he).1.symm

theorem nodup_modified_ofLists (hx : (xs.map (·.qualifiedName)).Nodup) :
    ((ofLists typed xs ys).modified.map (·.before.qualifiedName)).Nodup := by
  have hkeys : (byName xs).toList.Pairwise fun entry entry' => entry.1 ≠ entry'.1 := by
    have hnodup : ((byName xs).toList.map (·.1)).Nodup := by
      rw [Std.ExtTreeMap.map_fst_toList_eq_keys]
      exact Std.ExtTreeMap.nodup_keys
    exact List.pairwise_map.mp hnodup
  have hname {name : String} {old : Symbol} (hm : (name, old) ∈ (byName xs).toList) : old.qualifiedName = name :=
    ((mem_toList_indexBy hx).mp hm).2
  refine List.pairwise_map.mpr (List.pairwise_filterMap.mpr (hkeys.imp_of_mem ?_))
  rintro ⟨name, old⟩ ⟨name', old'⟩ hm hm' hne m hmod m' hmod' he
  refine hne ?_
  rw [← hname hm, ← hname hm', ← (modification?_eq_some_iff.mp hmod).1, ← (modification?_eq_some_iff.mp hmod').1]
  exact he

theorem nodup_removed (hb : (before.symbols.map Symbol.identity).Nodup) :
    ((between typed before after).removed.map Symbol.identity).Nodup := by
  simp only [between, List.flatMap_map]
  refine nodup_identities_flatMap (fun shelf s hs => ?_) fun shelf =>
    nodup_map_unmatched (Snapshot.nodup_shelf hb shelf)
  have hs : s ∈ (ofLists typed (before.shelf shelf) (after.shelf shelf)).removed := hs
  obtain ⟨hlisted, -⟩ := (mem_removed_ofLists (Snapshot.nodup_shelf hb shelf)).mp hs
  exact (Snapshot.mem_shelf.mp hlisted).2

theorem nodup_added (ha : (after.symbols.map Symbol.identity).Nodup) :
    ((between typed before after).added.map Symbol.identity).Nodup := by
  rw [← (between_swap typed before after).2]
  exact nodup_removed ha

theorem nodup_modified (hb : (before.symbols.map Symbol.identity).Nodup)
    (ha : (after.symbols.map Symbol.identity).Nodup) :
    ((between typed before after).modified.map (·.before.identity)).Nodup := by
  have hmodified : (between typed before after).modified.map (·.before) = Shelf.all.flatMap fun shelf =>
      (ofLists typed (before.shelf shelf) (after.shelf shelf)).modified.map (·.before) := by
    simp only [between, List.flatMap_map, List.map_flatMap]
  have hidentity : (between typed before after).modified.map (·.before.identity) =
      ((between typed before after).modified.map (·.before)).map Symbol.identity := by
    rw [List.map_map]
    rfl
  rw [hidentity, hmodified]
  refine nodup_identities_flatMap (fun shelf s hs => ?_) fun shelf => ?_
  · obtain ⟨m, hm, rfl⟩ := List.mem_map.mp hs
    have hold := ((mem_modified_ofLists (Snapshot.nodup_shelf hb shelf) (Snapshot.nodup_shelf ha shelf)).mp hm).1
    exact (Snapshot.mem_shelf.mp hold).2
  · rw [List.map_map]
    exact nodup_modified_ofLists (Snapshot.nodup_shelf hb shelf)

/-- What is removed, what is added and what is modified are of different identities. -/
theorem nodup_identities (hb : (before.symbols.map Symbol.identity).Nodup)
    (ha : (after.symbols.map Symbol.identity).Nodup) :
    let changes := between typed before after
    (changes.removed.map Symbol.identity ++ changes.added.map Symbol.identity ++
      changes.modified.map (·.before.identity)).Nodup := by
  intro changes
  rw [List.nodup_append', List.nodup_append']
  refine ⟨⟨nodup_removed hb, nodup_added ha, ?_⟩, nodup_modified hb ha, ?_⟩
  · intro identity hremoved hadded
    obtain ⟨s, hs, rfl⟩ := List.mem_map.mp hremoved
    obtain ⟨t, ht, he⟩ := List.mem_map.mp hadded
    exact ((mem_removed hb).mp hs).2 t ((mem_added ha).mp ht).1 he
  · intro identity hlisted hmodified
    obtain ⟨m, hm, rfl⟩ := List.mem_map.mp hmodified
    obtain ⟨hold, hnew, hid, -⟩ := (mem_modified hb ha).mp hm
    rcases List.mem_append.mp hlisted with hremoved | hadded
    · obtain ⟨s, hs, he⟩ := List.mem_map.mp hremoved
      exact ((mem_removed hb).mp hs).2 m.after hnew (hid.trans he.symm)
    · obtain ⟨t, ht, he⟩ := List.mem_map.mp hadded
      exact ((mem_added ha).mp ht).2 m.before hold he.symm

/-! ## What becomes of a declaration -/

/-- A declaration that is neither removed nor modified stands there as it was, as far as the comparison shows. -/
theorem unlisted_iff (hb : (before.symbols.map Symbol.identity).Nodup) (ha : (after.symbols.map Symbol.identity).Nodup)
    (hs : s ∈ before.symbols) :
    (s ∉ (between typed before after).removed ∧ ∀ m ∈ (between typed before after).modified, m.before ≠ s) ↔
      ∃ t ∈ after.symbols, t.identity = s.identity ∧ DeclarationChange.ofShapes typed s.shape t.shape = [] := by
  constructor
  · rintro ⟨hremoved, hmodified⟩
    obtain ⟨t, ht, hid⟩ : ∃ t ∈ after.symbols, t.identity = s.identity := by
      by_contra hnone
      exact hremoved ((mem_removed hb).mpr ⟨hs, fun t ht hid => hnone ⟨t, ht, hid⟩⟩)
    refine ⟨t, ht, hid, ?_⟩
    by_contra hne
    let m : ModifiedSymbol := ⟨s, t, DeclarationChange.ofShapes typed s.shape t.shape⟩
    have hm : m ∈ (between typed before after).modified := (mem_modified hb ha).mpr ⟨hs, ht, hid, rfl, hne⟩
    exact hmodified m hm rfl
  · rintro ⟨t, ht, hid, hsilent⟩
    refine ⟨fun hremoved => ((mem_removed hb).mp hremoved).2 t ht hid, ?_⟩
    rintro m hm rfl
    obtain ⟨-, hnew, hid', hchanges, hne⟩ := (mem_modified hb ha).mp hm
    obtain rfl : m.after = t := List.inj_on_of_nodup_map ha hnew ht (hid'.trans hid.symm)
    exact hne (hchanges.trans hsilent)

/-- The changes split the declarations. A declaration is removed if none of its identity is there afterwards; if there
is one, it is modified by just the changes between the two, or left alone if there are none. Added is what has a new
identity. No identity is listed twice, and the changes read backwards add what is removed and remove what is added. -/
theorem symbols_accounted_once (hb : (before.symbols.map Symbol.identity).Nodup)
    (ha : (after.symbols.map Symbol.identity).Nodup) (typed : Bool) :
    let changes := between typed before after
    (∀ s, s ∈ changes.removed ↔ s ∈ before.symbols ∧ ∀ t ∈ after.symbols, t.identity ≠ s.identity) ∧
    (∀ m, m ∈ changes.modified ↔ m.before ∈ before.symbols ∧ m.after ∈ after.symbols ∧
      m.after.identity = m.before.identity ∧
        m.changes = DeclarationChange.ofShapes typed m.before.shape m.after.shape ∧ m.changes ≠ []) ∧
    (∀ s ∈ before.symbols, (s ∉ changes.removed ∧ ∀ m ∈ changes.modified, m.before ≠ s) ↔
      ∃ t ∈ after.symbols, t.identity = s.identity ∧ DeclarationChange.ofShapes typed s.shape t.shape = []) ∧
    (∀ s, s ∈ changes.added ↔ s ∈ after.symbols ∧ ∀ t ∈ before.symbols, t.identity ≠ s.identity) ∧
    (changes.removed.map Symbol.identity ++ changes.added.map Symbol.identity ++
      changes.modified.map (·.before.identity)).Nodup ∧
    (between typed after before).added = changes.removed ∧ (between typed after before).removed = changes.added :=
  ⟨fun _ => mem_removed hb, fun _ => mem_modified hb ha, fun _ => unlisted_iff hb ha, fun _ => mem_added ha,
    nodup_identities hb ha, between_swap typed before after⟩

/-- One function goes, one gains a parameter that has to be given, one stays, and a class comes under the name of the
function that goes. -/
theorem symbols_accounted_once_of_class :
    let declaration (name : String) (kind : SymbolKind) (shape : Shape) : Symbol :=
      { name, qualifiedName := name, kind, line := 1, column := 0, signature := name, shape }
    let function (name : String) (params : List Parameter) : Symbol := declaration name .function (.function { params })
    let old : Snapshot := { filePath := "m.ts", language := .typeScript, status := .parsed }
    let before := { old with symbols := [function "gone" [], function "kept" [], function "run" []] }
    let after := { old with
      symbols := [declaration "gone" .classType (.classType {}), function "kept" [], function "run" [{ name := "a" }]] }
    let changes := between true before after
    (before.symbols.map Symbol.identity).Nodup ∧ (after.symbols.map Symbol.identity).Nodup ∧
      function "gone" [] ∈ changes.removed ∧ declaration "gone" .classType (.classType {}) ∈ changes.added ∧
      ⟨function "run" [], function "run" [{ name := "a" }], [.parameters (.requiredAdded "a")]⟩ ∈ changes.modified ∧
      function "kept" [] ∉ changes.removed ∧ ∀ m ∈ changes.modified, m.before ≠ function "kept" [] := by
  intro declaration function old before after changes
  have hb : (before.symbols.map Symbol.identity).Nodup := by decide
  have ha : (after.symbols.map Symbol.identity).Nodup := by decide
  obtain ⟨hremoved, hmodified, hunlisted, hadded, -⟩ := symbols_accounted_once hb ha true
  refine ⟨hb, ha, (hremoved _).mpr (by decide), (hadded _).mpr (by decide), (hmodified _).mpr (by decide), ?_⟩
  exact (hunlisted _ (by decide)).mpr ⟨function "kept" [], by decide, rfl, by decide⟩

end ApiImpact.SymbolChanges
