import Mathlib.Data.List.Basic
import Mathlib.Tactic.SplitIfs
import ApiImpact.Surface.Snapshot

/-!
# What a collection holds

A surface is compared by the keys of its exports and by the kinds and names of its published declarations. Both
grow while statements are taken in, and the published declarations stay among those that the module declares.
-/

namespace ApiImpact

/-- The kind and the name by which a symbol is known. -/
def Symbol.declared (s : Symbol) : SymbolKind × String := (s.kind, s.qualifiedName)

namespace Collection

/-- The exports have the keys `keys`. The declarations `least` are published, and nothing but `most` is declared
or published. -/
structure Holds (found : Collection) (keys : List ExportKey) (least most : List (SymbolKind × String)) : Prop where
  exported : ∀ key, key ∈ found.snapshot.exports.map Export.key ↔ key ∈ keys
  published : ∀ entry ∈ least, entry ∈ found.snapshot.symbols.map Symbol.declared
  within : ∀ entry ∈ found.snapshot.symbols.map Symbol.declared, entry ∈ most
  locals : ∀ declared ∈ found.locals, declared.symbol.declared ∈ most
  plain : ∀ entry ∈ most, entry.1 ≠ .method

variable {found : Collection} {keys keys' : List ExportKey} {least least' most : List (SymbolKind × String)} {e : Export}
  {symbol : Symbol} {declared : Local}

theorem Holds.mono (h : found.Holds keys least most) (hkeys : ∀ key, key ∈ keys' ↔ key ∈ keys) :
    found.Holds keys' least most where
  exported := fun key => (h.exported key).trans (hkeys key).symm
  published := h.published
  within := h.within
  locals := h.locals
  plain := h.plain

theorem Holds.addExport (h : found.Holds keys least most) (e : Export) :
    (found.addExport e).Holds (keys ++ [e.key]) least most where
  exported := fun key => by
    rw [List.mem_append, List.mem_singleton, ← h.exported, Collection.addExport, Snapshot.addExport]
    split_ifs with hknown
    · obtain ⟨e', he', hkey⟩ := List.any_eq_true.mp hknown
      refine ⟨.inl, fun hmem => hmem.elim id ?_⟩
      rintro rfl
      exact List.mem_map.mpr ⟨e', he', by simpa using hkey⟩
    · simp
  published := fun entry hentry => by
    rw [Collection.addExport, Snapshot.addExport]
    split_ifs
    · exact h.published entry hentry
    · exact h.published entry hentry
  within := fun entry hentry => by
    rw [Collection.addExport, Snapshot.addExport] at hentry
    split_ifs at hentry
    · exact h.within entry hentry
    · exact h.within entry hentry
  locals := h.locals
  plain := h.plain

/-- Apart from methods, the list of a symbol tells its kind. -/
theorem kind_eq_of_shelf_eq {kind kind' : SymbolKind} (h : kind.shelf = kind'.shelf) (hkind : kind ≠ .method)
    (hkind' : kind' ≠ .method) : kind = kind' := by
  cases kind <;> cases kind' <;> first | rfl | exact absurd rfl hkind | exact absurd rfl hkind' | cases h

theorem Holds.publish (h : found.Holds keys least most) (hmem : symbol.declared ∈ most) :
    (found.publish symbol).Holds keys (least ++ [symbol.declared]) most := by
  rw [Collection.publish, Snapshot.publish, Snapshot.addSymbol]
  split_ifs with hknown
  · refine ⟨h.exported, fun entry hentry => ?_, h.within, h.locals, h.plain⟩
    rcases List.mem_append.mp hentry with hentry | hentry
    · exact h.published entry hentry
    · obtain rfl := List.mem_singleton.mp hentry
      obtain ⟨other, hother, hname⟩ := List.any_eq_true.mp hknown
      obtain ⟨hother, hshelf⟩ := List.mem_filter.mp hother
      have hdeclared := List.mem_map_of_mem (f := Symbol.declared) hother
      have hkind : other.kind = symbol.kind := by
        refine kind_eq_of_shelf_eq ?_ (h.plain _ (h.within _ hdeclared)) (h.plain _ hmem)
        simpa [Symbol.shelf] using hshelf
      have hsame : other.declared = symbol.declared := Prod.ext hkind (eq_of_beq hname)
      rwa [hsame] at hdeclared
  · refine ⟨h.exported, fun entry hentry => ?_, fun entry hentry => ?_, h.locals, h.plain⟩
    · rw [List.map_append, List.mem_append]
      rcases List.mem_append.mp hentry with hentry | hentry
      · exact .inl (h.published entry hentry)
      · exact .inr hentry
    · rw [List.map_append, List.mem_append] at hentry
      rcases hentry with hentry | hentry
      · exact h.within entry hentry
      · obtain rfl := List.mem_singleton.mp hentry
        exact hmem

theorem Holds.weaken (h : found.Holds keys (least ++ least') most) : found.Holds keys least most where
  exported := h.exported
  published := fun entry hentry => h.published entry (List.mem_append_left _ hentry)
  within := h.within
  locals := h.locals
  plain := h.plain

/-- Referring to a name publishes nothing that the module does not declare. -/
theorem Holds.refer (h : found.Holds keys least most) (name : String) :
    (found.refer name).1.Holds keys least most := by
  rw [Collection.refer]
  split
  · rename_i declared hlocal
    exact (h.publish (h.locals declared (List.mem_of_find?_eq_some hlocal))).weaken
  · exact h

end Collection

end ApiImpact

/-!
# What a collection consists of

Declarations go by one name, and an export stands for everything of a module only if it is taken from that module.
This holds of a surface because it holds of whatever is taken into it.
-/

namespace ApiImpact

variable {P : Export → Prop} {Q : Symbol → Prop} {found found' : Collection} {symbol : Symbol} {declared : Local}
  {name : String} {e : Export} {style : ExportStyle}

/-! ## Symbols -/

namespace Collection

/-- All symbols have the property `Q`, published or declared. -/
structure EverySymbol (Q : Symbol → Prop) (found : Collection) : Prop where
  published : ∀ symbol ∈ found.snapshot.symbols, Q symbol
  declared : ∀ declared ∈ found.locals, Q declared.symbol

theorem EverySymbol.publish (h : found.EverySymbol Q) (hsymbol : Q { symbol with exported := true }) :
    (found.publish symbol).EverySymbol Q := by
  rw [Collection.publish, Snapshot.publish, Snapshot.addSymbol]
  split_ifs
  · exact h
  · refine ⟨fun other hother => ?_, h.declared⟩
    rcases List.mem_append.mp hother with hother | hother
    · exact h.published other hother
    · obtain rfl := List.mem_singleton.mp hother
      exact hsymbol

theorem EverySymbol.addExport (h : found.EverySymbol Q) (e : Export) : (found.addExport e).EverySymbol Q := by
  rw [Collection.addExport, Snapshot.addExport]
  split_ifs <;> exact ⟨h.published, h.declared⟩

theorem EverySymbol.refer (h : found.EverySymbol Q) (hpublished : ∀ symbol, Q symbol → Q { symbol with exported := true })
    (name : String) : (found.refer name).1.EverySymbol Q := by
  rw [Collection.refer]
  split
  · rename_i declared hlocal
    exact h.publish (hpublished _ (h.declared declared (List.mem_of_find?_eq_some hlocal)))
  · exact h

theorem EverySymbol.declare (h : found.EverySymbol Q) (hdeclared : Q declared.symbol) :
    EverySymbol Q { found with locals := found.locals ++ [declared] } where
  published := h.published
  declared := fun other hother => by
    rcases List.mem_append.mp hother with hother | hother
    · exact h.declared other hother
    · obtain rfl := List.mem_singleton.mp hother
      exact hdeclared

end Collection

/-! ## Exports -/

/-- The export is written in this style and is the module's own. -/
structure Export.IsOwn (style : ExportStyle) (e : Export) : Prop where
  style_eq : e.style = style
  unsourced : e.sourceModule = none
  single : e.kind ≠ .star

theorem Export.isOwn_named {line : Nat} {kind : ExportKind} (h : kind ≠ .star) :
    (Export.named name line kind style).IsOwn style := ⟨rfl, rfl, h⟩

theorem Export.isOwn_default {line : Nat} {kind : ExportKind} {sourceName : Option String} (h : kind ≠ .star) :
    (Export.default line kind sourceName style).IsOwn style := ⟨rfl, rfl, h⟩

/-- If the export stands for everything of a module, then it is taken from one. -/
def Export.HasSource (e : Export) : Prop := e.kind = .star → e.sourceModule.isSome

theorem Export.hasSource_of_ne {e : Export} (h : e.kind ≠ .star) : e.HasSource :=
  fun hstar => absurd hstar h

/-! ## Collections -/

/-- The declaration goes by one name. -/
def Symbol.IsRegular (symbol : Symbol) : Prop :=
  symbol.qualifiedName = symbol.name

/-- The declaration goes by one name, and an export of it is a single one. -/
structure Local.IsRegular (declared : Local) : Prop where
  name_eq : declared.symbol.qualifiedName = declared.symbol.name
  single : declared.exportKind ≠ .star

namespace Collection

/-- Every export has the property `P`, and all declarations are regular, in a file that could be analyzed. -/
structure Consists (P : Export → Prop) (found : Collection) : Prop where
  analyzed : found.snapshot.isFailed = false
  exports : ∀ e ∈ found.snapshot.exports, P e
  regular : found.EverySymbol Symbol.IsRegular
  single : ∀ declared ∈ found.locals, declared.exportKind ≠ .star

theorem consists_empty {snapshot : Snapshot} {locals : List Local} (hstatus : snapshot.isFailed = false) (hexports : snapshot.exports = [])
    (hsymbols : snapshot.symbols = []) (hlocals : ∀ declared ∈ locals, declared.IsRegular) :
    Consists P { locals, snapshot } where
  analyzed := hstatus
  exports := by simp [hexports]
  regular := ⟨by simp [hsymbols], fun declared hdeclared => (hlocals declared hdeclared).name_eq⟩
  single := fun declared hdeclared => (hlocals declared hdeclared).single

theorem Consists.publish (h : found.Consists P) (hname : symbol.qualifiedName = symbol.name) :
    (found.publish symbol).Consists P := by
  have hregular : (found.publish symbol).EverySymbol Symbol.IsRegular := h.regular.publish hname
  rw [Collection.publish, Snapshot.publish, Snapshot.addSymbol] at hregular ⊢
  split_ifs at hregular ⊢
  · exact ⟨h.analyzed, h.exports, hregular, h.single⟩
  · exact ⟨h.analyzed, h.exports, hregular, h.single⟩

theorem Consists.addExport (h : found.Consists P) (he : P e) : (found.addExport e).Consists P := by
  have hregular : (found.addExport e).EverySymbol Symbol.IsRegular := h.regular.addExport e
  rw [Collection.addExport, Snapshot.addExport] at hregular ⊢
  split_ifs at hregular ⊢
  · exact h
  · refine ⟨h.analyzed, fun other hother => ?_, hregular, h.single⟩
    rcases List.mem_append.mp hother with hother | hother
    · exact h.exports other hother
    · obtain rfl := List.mem_singleton.mp hother
      exact he

theorem Consists.addImport (h : found.Consists P) (i : Import) : (found.addImport i).Consists P :=
  ⟨h.analyzed, h.exports, ⟨h.regular.published, h.regular.declared⟩, h.single⟩

theorem Consists.refer (h : found.Consists P) (name : String) :
    (found.refer name).1.Consists P ∧ (found.refer name).2 ≠ .star := by
  rw [Collection.refer]
  split
  · rename_i declared hlocal
    have hmem := List.mem_of_find?_eq_some hlocal
    exact ⟨h.publish (h.regular.declared declared hmem), h.single declared hmem⟩
  · exact ⟨h, nofun⟩

theorem Consists.declare (h : found.Consists P) (hregular : declared.IsRegular) :
    Consists P { found with locals := found.locals ++ [declared] } where
  analyzed := h.analyzed
  exports := h.exports
  regular := h.regular.declare hregular.name_eq
  single := fun other hother => by
    rcases List.mem_append.mp hother with hother | hother
    · exact h.single other hother
    · obtain rfl := List.mem_singleton.mp hother
      exact hregular.single

end Collection

end ApiImpact
