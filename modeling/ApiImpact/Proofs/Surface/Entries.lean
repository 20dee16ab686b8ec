import ApiImpact.Proofs.Change.Index
import ApiImpact.Change.Surface
import ApiImpact.Surface.Snapshot
import Mathlib.Tactic.SplitIfs

/-!
# What a snapshot keeps of its entries

Symbols and exports are taken into a snapshot one after the other. It keeps the first entry of each identity, in
the order in which they came.
-/

namespace ApiImpact

/-! ## The first entries by key -/

section

variable {α κ : Type} [DecidableEq κ] {key : α → κ} {xs : List α} {x : α} {k : κ}

/-- The entries of a list without those of which an earlier one has the key. -/
def firstsBy (key : α → κ) (xs : List α) : List α :=
  xs.eraseDupsBy fun x y => key x == key y

theorem firstsBy_nil : firstsBy key [] = [] := rfl

theorem firstsBy_cons (key : α → κ) (x : α) (xs : List α) :
    firstsBy key (x :: xs) = x :: firstsBy key (xs.filter fun y => (key y == key x) = false) :=
  List.eraseDupsBy_cons

/-- An entry that comes last is kept if its key is new. -/
theorem firstsBy_concat (key : α → κ) (xs : List α) (x : α) :
    firstsBy key (xs ++ [x]) = if ∃ y ∈ xs, key y = key x then firstsBy key xs else firstsBy key xs ++ [x] := by
  match xs with
  | [] => simp [firstsBy_cons, firstsBy_nil]
  | first :: rest =>
      have ih := firstsBy_concat key (rest.filter fun y => (key y == key first) = false) x
      rw [List.cons_append, firstsBy_cons, firstsBy_cons, List.filter_append]
      by_cases hfirst : key x = key first
      · simp [hfirst]
      · have hfirst' : key first ≠ key x := fun h => hfirst h.symm
        have hseen : (∃ y ∈ rest.filter fun y => (key y == key first) = false, key y = key x) ↔
            ∃ y ∈ rest, key y = key x := by
          refine ⟨fun ⟨y, hy, hk⟩ => ⟨y, (List.mem_filter.mp hy).1, hk⟩, fun ⟨y, hy, hk⟩ => ⟨y, ?_, hk⟩⟩
          simpa [hy, hk] using hfirst
        simp only [hseen] at ih
        simp only [List.filter_cons, List.filter_nil, beq_eq_false_iff_ne.mpr hfirst, decide_true, if_true, ih,
          List.exists_mem_cons_iff, hfirst', false_or]
        split_ifs <;> rfl
termination_by xs.length
decreasing_by exact Nat.lt_succ_of_le (List.length_filter_le _ _)

theorem firstsBy_sublist (key : α → κ) (xs : List α) : (firstsBy key xs).Sublist xs := by
  induction xs using List.reverseRecOn with
  | nil => exact List.Sublist.refl []
  | append_singleton xs x ih =>
      rw [firstsBy_concat]
      split_ifs
      · exact ih.trans (List.sublist_append_left xs [x])
      · exact ih.append_right [x]

theorem exists_mem_firstsBy_iff : (∃ x ∈ firstsBy key xs, key x = k) ↔ ∃ x ∈ xs, key x = k := by
  refine ⟨fun ⟨x, hx, hk⟩ => ⟨x, (firstsBy_sublist key xs).subset hx, hk⟩, ?_⟩
  induction xs using List.reverseRecOn with
  | nil => exact id
  | append_singleton xs x ih =>
      rintro ⟨y, hy, rfl⟩
      rw [firstsBy_concat]
      rcases List.mem_append.mp hy with hy | hy
      · obtain ⟨z, hz, hk⟩ := ih ⟨y, hy, rfl⟩
        split_ifs
        · exact ⟨z, hz, hk⟩
        · exact ⟨z, List.mem_append_left _ hz, hk⟩
      · obtain rfl := List.mem_singleton.mp hy
        split_ifs with hknown
        · exact ih hknown
        · exact ⟨y, List.mem_append_right _ hy, rfl⟩

theorem nodup_map_firstsBy (key : α → κ) (xs : List α) : ((firstsBy key xs).map key).Nodup := by
  induction xs using List.reverseRecOn with
  | nil => exact List.nodup_nil
  | append_singleton xs x ih =>
      rw [firstsBy_concat]
      split_ifs with hknown
      · exact ih
      · rw [List.map_append, List.map_singleton, ← List.concat_eq_append]
        refine List.Nodup.concat (fun hm => hknown ?_) ih
        obtain ⟨y, hy, hk⟩ := List.mem_map.mp hm
        exact exists_mem_firstsBy_iff.mp ⟨y, hy, hk⟩

end

/-! ## Snapshots -/

/-- What is taken into a snapshot. -/
inductive Entry where
  | symbol (symbol : Symbol)
  | export (e : Export)

namespace Entry

/-- The symbol, if the entry is one. -/
def symbol? : Entry → Option Symbol
  | symbol s => some s
  | .export _ => none

/-- The export, if the entry is one. -/
def export? : Entry → Option Export
  | symbol _ => none
  | .export e => some e

/-- The symbols that are taken into one list of a snapshot. -/
def symbolsOn (shelf : Shelf) (entries : List Entry) : List Symbol :=
  (entries.filterMap symbol?).filter (·.shelf == shelf)

/-- The exports among the entries. -/
def exportsAmong (entries : List Entry) : List Export :=
  entries.filterMap export?

section

variable {shelf : Shelf} {entries : List Entry} {s : Symbol} {e : Export}

theorem symbolsOn_concat_symbol :
    symbolsOn shelf (entries ++ [symbol s]) =
      if s.shelf = shelf then symbolsOn shelf entries ++ [s] else symbolsOn shelf entries := by
  rw [symbolsOn, List.filterMap_append, List.filter_append, ← symbolsOn]
  split_ifs with hshelf <;> simp [symbol?, hshelf]

theorem symbolsOn_concat_export : symbolsOn shelf (entries ++ [.export e]) = symbolsOn shelf entries := by
  simp [symbolsOn, symbol?]

theorem exportsAmong_concat_symbol : exportsAmong (entries ++ [symbol s]) = exportsAmong entries := by
  simp [exportsAmong, export?]

theorem exportsAmong_concat_export : exportsAmong (entries ++ [.export e]) = exportsAmong entries ++ [e] := by
  simp [exportsAmong, export?]

end

end Entry

namespace Snapshot

variable {s : Snapshot} {entries : List Entry} {entry : Entry} {symbol : Symbol} {e : Export} {shelf : Shelf}

/-- The snapshot with one more entry, unless it has one of the same identity. -/
def add (s : Snapshot) : Entry → Snapshot
  | .symbol symbol => s.addSymbol symbol
  | .export e => s.addExport e

/-- The snapshot with entries taken in one after the other. -/
def addAll (s : Snapshot) (entries : List Entry) : Snapshot :=
  entries.foldl add s

/-- The lists of the snapshot are made of these entries: each holds, in their order, the first entry of every
identity. -/
structure Records (s : Snapshot) (entries : List Entry) : Prop where
  symbols (shelf : Shelf) : s.shelf shelf = firstsBy Symbol.qualifiedName (Entry.symbolsOn shelf entries)
  exports : s.exports = firstsBy Export.key (Entry.exportsAmong entries)

theorem records_nil (hsymbols : s.symbols = []) (hexports : s.exports = []) : s.Records [] where
  symbols shelf := by simp [Snapshot.shelf, hsymbols, Entry.symbolsOn, firstsBy_nil]
  exports := hexports

theorem Records.any_shelf_iff (h : s.Records entries) {name : String} :
    (s.shelf shelf).any (·.qualifiedName == name) = true ↔
      ∃ other ∈ Entry.symbolsOn shelf entries, other.qualifiedName = name := by
  simp only [h.symbols, List.any_eq_true, beq_iff_eq]
  exact exists_mem_firstsBy_iff

theorem Records.any_exports_iff (h : s.Records entries) {key : ExportKey} :
    s.exports.any (·.key == key) = true ↔ ∃ other ∈ Entry.exportsAmong entries, other.key = key := by
  simp only [h.exports, List.any_eq_true, beq_iff_eq]
  exact exists_mem_firstsBy_iff

theorem Records.addSymbol (h : s.Records entries) (symbol : Symbol) :
    (s.addSymbol symbol).Records (entries ++ [.symbol symbol]) where
  symbols shelf := by
    rw [Entry.symbolsOn_concat_symbol]
    by_cases hshelf : symbol.shelf = shelf
    · subst hshelf
      simp only [Snapshot.addSymbol, h.any_shelf_iff, if_true, firstsBy_concat]
      split_ifs
      · exact h.symbols symbol.shelf
      · rw [← h.symbols, Snapshot.shelf, List.filter_append]
        simp [Snapshot.shelf]
    · rw [if_neg hshelf, ← h.symbols, Snapshot.addSymbol]
      split_ifs
      · rfl
      · rw [Snapshot.shelf, List.filter_append]
        simp [Snapshot.shelf, hshelf]
  exports := by
    rw [Entry.exportsAmong_concat_symbol, Snapshot.addSymbol]
    split_ifs <;> exact h.exports

theorem Records.addExport (h : s.Records entries) (e : Export) :
    (s.addExport e).Records (entries ++ [.export e]) where
  symbols shelf := by
    rw [Entry.symbolsOn_concat_export, Snapshot.addExport]
    split_ifs <;> exact h.symbols shelf
  exports := by
    simp only [Entry.exportsAmong_concat_export, firstsBy_concat, Snapshot.addExport, h.any_exports_iff]
    split_ifs
    · exact h.exports
    · rw [← h.exports]

theorem Records.addAll (h : s.Records entries) (more : List Entry) : (s.addAll more).Records (entries ++ more) := by
  induction more generalizing s entries with
  | nil => simpa [Snapshot.addAll] using h
  | cons entry more ih =>
      have hentry : (s.add entry).Records (entries ++ [entry]) := by
        cases entry with
        | symbol symbol => exact h.addSymbol symbol
        | «export» e => exact h.addExport e
      have hrest := ih hentry
      rwa [List.append_assoc, List.singleton_append] at hrest

theorem records_addAll (hsymbols : s.symbols = []) (hexports : s.exports = []) (entries : List Entry) :
    (s.addAll entries).Records entries :=
  (records_nil hsymbols hexports).addAll entries

theorem Records.mem_of_mem_shelf (h : s.Records entries) (hm : symbol ∈ s.shelf shelf) : .symbol symbol ∈ entries := by
  rw [h.symbols] at hm
  obtain ⟨hm, -⟩ := List.mem_filter.mp ((firstsBy_sublist _ _).subset hm)
  obtain ⟨entry, hentry, hsymbol⟩ := List.mem_filterMap.mp hm
  cases entry with
  | symbol other =>
      cases hsymbol
      exact hentry
  | «export» e => cases hsymbol

/-! ## Looking entries up -/

/-- Identities are unique, and what is looked up under one is the entry of that identity. -/
structure IsIndexed (s : Snapshot) : Prop where
  names (shelf : Shelf) : ((s.shelf shelf).map (·.qualifiedName)).Nodup
  keys : (s.exports.map Export.key).Nodup
  byName (shelf : Shelf) (name : String) (symbol : Symbol) :
    (SymbolChanges.byName (s.shelf shelf))[name]? = some symbol ↔
      symbol ∈ s.shelf shelf ∧ symbol.qualifiedName = name
  byKey (key : ExportKey) (e : Export) :
    (ExportChanges.byKey s.exports)[key]? = some e ↔ e ∈ s.exports ∧ e.key = key

theorem Records.isIndexed (h : s.Records entries) : s.IsIndexed := by
  have hnames (shelf : Shelf) : ((s.shelf shelf).map (·.qualifiedName)).Nodup := by
    rw [h.symbols]
    exact nodup_map_firstsBy _ _
  have hkeys : (s.exports.map Export.key).Nodup := by
    rw [h.exports]
    exact nodup_map_firstsBy _ _
  exact ⟨hnames, hkeys, fun shelf name symbol => getElem?_indexBy (hnames shelf), fun key e => getElem?_indexBy hkeys⟩

end Snapshot

end ApiImpact

/-! ## How a collection grows

A surface is collected in steps: a declaration is noted or published, an export or an import is taken in. The
snapshot keeps what was published and exported on the way, the first entry of each identity, and whatever is
published is marked as exported.
-/

namespace ApiImpact

namespace Collection

/-- `first` becomes this collection in some steps. -/
inductive Grows (first : Collection) : Collection → Prop
  | refl : Grows first first
  | declare {found : Collection} (h : Grows first found) (declared : Local) :
    Grows first { found with locals := found.locals ++ [declared] }
  | publish {found : Collection} (h : Grows first found) (symbol : Symbol) : Grows first (found.publish symbol)
  | addExport {found : Collection} (h : Grows first found) (e : Export) : Grows first (found.addExport e)
  | addImport {found : Collection} (h : Grows first found) (i : Import) : Grows first (found.addImport i)

variable {first found : Collection} {entries : List Entry}

theorem Grows.refer (h : first.Grows found) (name : String) : first.Grows (found.refer name).1 := by
  rw [Collection.refer]
  split
  · exact h.publish _
  · exact h

/-- Every symbol among the entries is marked as exported. -/
def AllPublished (entries : List Entry) : Prop :=
  ∀ symbol, Entry.symbol symbol ∈ entries → symbol.exported = true

theorem AllPublished.concat (h : AllPublished entries) {entry : Entry}
    (hentry : ∀ symbol, entry = .symbol symbol → symbol.exported = true) : AllPublished (entries ++ [entry]) := by
  intro symbol hm
  rcases List.mem_append.mp hm with hm | hm
  · exact h symbol hm
  · exact hentry symbol (List.mem_singleton.mp hm).symm

/-- A collection that has grown from an empty surface holds the first entry of each identity of some entries,
all symbols of which are marked as exported. -/
theorem Grows.exists_records (h : first.Grows found) (hsymbols : first.snapshot.symbols = [])
    (hexports : first.snapshot.exports = []) :
    ∃ entries, AllPublished entries ∧ found.snapshot.Records entries := by
  induction h with
  | refl => exact ⟨[], nofun, Snapshot.records_nil hsymbols hexports⟩
  | declare _ declared ih => exact ih
  | publish _ symbol ih =>
      obtain ⟨entries, hpublished, hrecords⟩ := ih
      refine ⟨_, hpublished.concat ?_, hrecords.addSymbol _⟩
      rintro _ ⟨⟩
      rfl
  | addExport _ e ih =>
      obtain ⟨entries, hpublished, hrecords⟩ := ih
      refine ⟨_, hpublished.concat ?_, hrecords.addExport e⟩
      exact nofun
  | addImport _ i ih =>
      obtain ⟨entries, hpublished, hrecords⟩ := ih
      exact ⟨entries, hpublished, hrecords.symbols, hrecords.exports⟩

end Collection

/-- The symbols and exports of the snapshot were collected from nothing. -/
def Snapshot.IsCollected (s : Snapshot) : Prop :=
  ∃ first found : Collection, first.Grows found ∧ first.snapshot.symbols = [] ∧ first.snapshot.exports = [] ∧
    s.symbols = found.snapshot.symbols ∧ s.exports = found.snapshot.exports

theorem Snapshot.IsCollected.exists_records {s : Snapshot} (h : s.IsCollected) :
    ∃ entries, Collection.AllPublished entries ∧ s.Records entries := by
  obtain ⟨first, found, hgrows, hnone, hnone', hsymbols, hexports⟩ := h
  obtain ⟨entries, hpublished, hrecords⟩ := hgrows.exists_records hnone hnone'
  refine ⟨entries, hpublished, fun shelf => ?_, hexports.trans hrecords.exports⟩
  rw [Snapshot.shelf, hsymbols]
  exact hrecords.symbols shelf

end ApiImpact
