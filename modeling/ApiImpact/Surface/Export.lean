import Std.Data.ExtTreeMap
import ApiImpact.Surface.Symbol

/-!
Exports of a module and their identity.
-/

namespace ApiImpact

/-- Whether an export is bound to a name or is the default of its module. -/
inductive ExportType where
  | named
  | default
  deriving DecidableEq, Repr, Inhabited

/-- What an export refers to. -/
inductive ExportKind where
  | function
  | classType
  | object
  | binding
  | interface
  | typeAlias
  | enumeration
  /-- Everything another module exports. -/
  | star
  | unknown
  deriving DecidableEq, Repr, Inhabited

/-- The kind of an export of a declaration of this kind. -/
def ExportKind.ofSymbol : SymbolKind → ExportKind
  | .function | .method => function
  | .classType => classType
  | .interface => interface
  | .typeAlias => typeAlias
  | .enumeration => enumeration
  | .binding => binding

/-- How an export is written: with an `export` statement or by assigning to the module's exports. -/
inductive ExportStyle where
  | declarative
  | assignment
  deriving DecidableEq, Repr, Inhabited

/-- One export of a module. -/
structure Export where
  /-- The public name: `default` for default exports, `*` for a bare star. -/
  name : String
  exportType : ExportType
  kind : ExportKind
  line : Nat
  /-- The local name, where it is recorded. -/
  sourceName : Option String := none
  /-- The module that a re-export takes it from. -/
  sourceModule : Option String := none
  style : ExportStyle
  deriving DecidableEq, Repr, Inhabited

/-- What makes two exports the same one. The kind does not count: a function that becomes an object
under its old name is a changed export. -/
structure ExportKey where
  exportType : ExportType
  name : String
  sourceModule : Option String
  deriving DecidableEq, Repr, Inhabited

namespace ExportKey

/-- Named exports come before the default. -/
def typeLevel (key : ExportKey) : Nat :=
  match key.exportType with
  | .named => 0
  | .default => 1

instance : Ord ExportKey :=
  ⟨compareLex (compareOn typeLevel) (compareLex (compareOn name) (compareOn sourceModule))⟩

instance : Std.TransOrd ExportKey :=
  inferInstanceAs (Std.TransCmp
    (compareLex (compareOn typeLevel) (compareLex (compareOn name) (compareOn sourceModule))))

theorem eq_of_compare_eq {a b : ExportKey} (h : compare a b = .eq) : a = b := by
  obtain ⟨ht, h⟩ := compareLex_eq_eq.mp h
  obtain ⟨hn, hm⟩ := compareLex_eq_eq.mp h
  have ht : a.typeLevel = b.typeLevel := Std.LawfulEqCmp.eq_of_compare ht
  have hn : a.name = b.name := Std.LawfulEqCmp.eq_of_compare hn
  have hm : a.sourceModule = b.sourceModule := Std.LawfulEqCmp.eq_of_compare hm
  obtain ⟨at_, an, am⟩ := a
  obtain ⟨bt, bn, bm⟩ := b
  cases at_ <;> cases bt <;> simp_all [typeLevel]

instance : Std.LawfulEqOrd ExportKey := ⟨eq_of_compare_eq⟩

end ExportKey

namespace Export

/-- The identity of the export. -/
def key (e : Export) : ExportKey :=
  ⟨e.exportType, e.name, e.sourceModule⟩

/-- The name by which the export is spoken of: the local name of a default export if there is one,
the public name of any other. -/
def displayName (e : Export) : String :=
  match e.exportType with
  | .default => e.sourceName.getD e.name
  | .named => e.name

/-- The export is named and has another name locally. -/
def isAliased (e : Export) : Bool :=
  e.exportType == .named && e.sourceName.any (· != e.name)

/-- A named export of this module. -/
def named (name : String) (line : Nat) (kind : ExportKind) (style : ExportStyle) : Export :=
  { name, exportType := .named, kind, line, style }

/-- A default export. -/
def default (line : Nat) (kind : ExportKind) (sourceName : Option String) (style : ExportStyle) :
    Export :=
  { name := "default", exportType := .default, kind, line, sourceName, style }

end Export

end ApiImpact
