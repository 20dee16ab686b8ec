import ApiImpact.Change.Surface

/-!
Findings: each change classified by rule and severity, filed under a symbol and put into words.
-/

namespace ApiImpact

/-- A change as it is reported. -/
structure Finding where
  rule : Rule
  severity : Severity
  /-- The symbol it is filed under; a member is qualified by its declaration. -/
  symbol : String
  message : String
  /-- The declaration or export before the change. -/
  before : Option String := none
  /-- The declaration or export after the change. -/
  after : Option String := none
  /-- The line after the change, or before it if there is none after. -/
  line : Option Nat := none
  /-- The declaration that it is about, with its kind. -/
  owner : Option (SymbolKind × String) := none
  deriving DecidableEq, Repr, Inhabited

/-- The words for what an export refers to. -/
def ExportKind.description : ExportKind → String
  | function => "function"
  | classType => "class"
  | object => "object"
  | binding => "variable"
  | interface => "interface"
  | typeAlias => "type alias"
  | enumeration => "enum"
  | star => "star re-export"
  | unknown => "unknown"

namespace Export

/-- The module that it is taken from, as the end of an export statement. -/
def fromText (e : Export) : String :=
  e.sourceModule.elim "" fun module => s!" from '{module}'"

/-- The export as a statement. -/
def statement (e : Export) : String :=
  match e.exportType, e.kind with
  | .default, _ => s!"export default {e.displayName}"
  | .named, .star =>
    if e.name = "*" then s!"export *{e.fromText}" else s!"export * as {e.name}{e.fromText}"
  | .named, _ =>
    if e.isAliased then
      let localName := e.sourceName.getD ""
      s!"export \x7b {localName} as {e.name} \x7d{e.fromText}"
    else s!"export \x7b {e.name} \x7d{e.fromText}"

/-- The symbol that findings about the export are filed under. -/
def findingSymbol (e : Export) : String :=
  if e.kind = .star ∧ e.name = "*" then
    let module := e.sourceModule.getD ""
    s!"* from {module}"
  else e.displayName

end Export

namespace Finding

/-- A symbol in quotation marks. -/
def quoted (name : String) : String :=
  "\x60" ++ name ++ "\x60"

/-- The rule about the removal of a declaration. -/
def removalRule : SymbolKind → Rule
  | .function | .method => .functionRemoved
  | .classType => .classRemoved
  | .interface => .interfaceRemoved
  | .typeAlias => .typeAliasRemoved
  | .enumeration => .enumRemoved
  | .binding => .variableRemoved

/-- A declaration is gone. -/
def ofRemovedSymbol (s : Symbol) : Finding :=
  { rule := removalRule s.kind
    severity := .breaking
    symbol := s.name
    message := s!"{s.kind.label} {quoted s.name} was removed"
    before := some s.signature
    line := some s.line
    owner := some (s.kind, s.name) }

/-- There is a new declaration. -/
def ofAddedSymbol (s : Symbol) : Finding :=
  { rule := .symbolAdded
    severity := .info
    symbol := s.name
    message := s!"{s.kind.label} {quoted s.name} was added"
    after := some s.signature
    line := some s.line
    owner := some (s.kind, s.name) }

/-- The severity of a change that breaks callers only if types say so. -/
def strictSeverity (typed : Bool) : Severity :=
  if typed then .breaking else .warning

/-- What is said of a change: its rule and severity, the symbol it is filed under and the message. -/
structure Verdict where
  rule : Rule
  severity : Severity
  symbol : String
  message : String

/-- Whose parameters changed. -/
inductive Callable where
  | function
  | constructor
  deriving DecidableEq, Repr

namespace Callable

/-- The words behind the name of the declaration. -/
def words : Callable → String
  | function => ""
  | constructor => " constructor"

/-- The symbol that findings are filed under, in the declaration `owner`. -/
def symbol (callable : Callable) (owner : String) : String :=
  match callable with
  | function => owner
  | constructor => s!"{owner}.constructor"

/-- The rule for a finding that concerns the callable, given the rule for functions. -/
def rule (callable : Callable) (functionRule : Rule) : Rule :=
  match callable with
  | function => functionRule
  | constructor => .classConstructorChanged

end Callable

/-- What is said of a changed parameter list of the declaration `owner`. -/
def judgeParameters (typed : Bool) (callable : Callable) (owner : String) :
    ParameterChange → Verdict
  | .countDecreased before after =>
    ⟨callable.rule .functionSignatureChanged, strictSeverity typed, callable.symbol owner,
      s!"{quoted owner}{callable.words} now takes {after} parameter(s) instead of {before}"⟩
  | .restRemoved =>
    ⟨callable.rule .functionSignatureChanged, strictSeverity typed, callable.symbol owner,
      s!"{quoted owner}{callable.words} no longer accepts a rest parameter"⟩
  | .requiredAdded name =>
    ⟨callable.rule .functionRequiredParamAdded, .breaking, callable.symbol owner,
      s!"{quoted owner}{callable.words} gained required parameter {quoted name}"⟩
  | .becameRequired name =>
    ⟨callable.rule .functionParamBecameRequired, strictSeverity typed, callable.symbol owner,
      s!"parameter {quoted name} of {quoted owner}{callable.words} is now required"⟩
  | .typeChanged name before after widening =>
    ⟨callable.rule .functionParamTypeChanged, if widening then .info else .breaking,
      callable.symbol owner,
      s!"parameter {quoted name} of {quoted owner}{callable.words} changed type from "
        ++ s!"{quoted before} to {quoted after}"⟩

/-- What is said of a change inside the declaration `owner`. -/
def judge (typed : Bool) (owner : String) : DeclarationChange → Verdict
  | .parameters change => judgeParameters typed .function owner change
  | .constructor change => judgeParameters typed .constructor owner change
  | .returnTypeChanged before after narrowing =>
    ⟨.functionReturnTypeChanged, if narrowing then .info else .breaking, owner,
      s!"return type of {quoted owner} changed from {quoted before} to {quoted after}"⟩
  | .asyncChanged true =>
    ⟨.functionSignatureChanged, .warning, owner,
      s!"{quoted owner} is now async; callers may need to await its result"⟩
  | .asyncChanged false =>
    ⟨.functionSignatureChanged, .warning, owner,
      s!"{quoted owner} is no longer async; callers awaiting it may behave differently"⟩
  | .methodRemoved name =>
    ⟨.classMethodRemoved, .breaking, s!"{owner}.{name}",
      s!"method {quoted name} was removed from class {quoted owner}"⟩
  | .constructorRemoved =>
    ⟨.classConstructorRemoved, strictSeverity typed, s!"{owner}.constructor",
      s!"explicit constructor of class {quoted owner} was removed"⟩
  | .propertyRemoved name =>
    ⟨.interfacePropertyRemoved, .breaking, s!"{owner}.{name}",
      s!"property {quoted name} was removed from interface {quoted owner}"⟩
  | .propertyAddedRequired name =>
    ⟨.interfacePropertyAddedRequired, .breaking, s!"{owner}.{name}",
      s!"interface {quoted owner} gained required property {quoted name}"⟩
  | .propertyBecameRequired name =>
    ⟨.interfacePropertyBecameRequired, .breaking, s!"{owner}.{name}",
      s!"property {quoted name} of interface {quoted owner} is now required"⟩
  | .propertyTypeChanged name before after =>
    ⟨.interfacePropertyTypeChanged, .warning, s!"{owner}.{name}",
      s!"property {quoted name} of interface {quoted owner} changed type from "
        ++ s!"{quoted before} to {quoted after}"⟩
  | .definitionChanged before after =>
    ⟨.typeAliasChanged, .warning, owner,
      s!"type alias {quoted owner} changed from {quoted before} to {quoted after}"⟩
  | .enumMemberRemoved name =>
    ⟨.enumMemberRemoved, .breaking, s!"{owner}.{name}",
      s!"member {quoted name} was removed from enum {quoted owner}"⟩

/-- A declaration changed inside. -/
def ofDeclarationChange (typed : Bool) (modified : ModifiedSymbol) (change : DeclarationChange) :
    Finding :=
  let after := modified.after
  let verdict := judge typed after.name change
  { rule := verdict.rule
    severity := verdict.severity
    symbol := verdict.symbol
    message := verdict.message
    before := some modified.before.signature
    after := some after.signature
    line := some after.line
    owner := some (after.kind, after.name) }

/-- The kind of declaration that an export speaks for, if it is a function or class. -/
def ownerKind? (kind : ExportKind) (refersToClass : Bool) : Option SymbolKind :=
  if refersToClass then some .classType
  else match kind with
    | .function => some .function
    | .classType => some .classType
    | _ => none

/-- The words for the removal of an export under `rule`. -/
def removalMessage (rule : Rule) (e : Export) : String :=
  let name := quoted e.findingSymbol
  match rule with
  | .exportedClassRemoved => s!"exported class {name} was removed"
  | .exportStarRemoved => s!"{quoted e.statement} was removed"
  | .defaultExportRemoved => s!"default export {name} was removed"
  | .assignedExportRemoved => s!"CommonJS export {name} was removed"
  | .aliasedExportRemoved =>
    let localName := quoted (e.sourceName.getD e.name)
    s!"export {name} (alias of {localName}) was removed"
  | .reexportRemoved =>
    let module := quoted (e.sourceModule.getD "")
    s!"re-export {name} from {module} was removed"
  | _ => s!"export {name} was removed"

/-- An export is gone. -/
def ofRemovedExport (removed : RemovedExport) : Finding :=
  let e := removed.was
  { rule := removed.rule
    severity := .breaking
    symbol := e.findingSymbol
    message := removalMessage removed.rule e
    before := some e.statement
    line := some e.line
    owner := (ownerKind? e.kind removed.refersToClass).map fun kind => (kind, e.findingSymbol) }

/-- The words for the change of an export. -/
def transitionMessage (modified : ModifiedExport) : String :=
  let name := quoted modified.before.findingSymbol
  match modified.transition with
  | .kindChanged =>
    s!"export {name} changed from {modified.before.kind.description} to "
      ++ modified.after.kind.description
  | .namedToDefault => s!"{name} changed from a named export to the default export"
  | .defaultToNamed => s!"{name} changed from the default export to a named export"

/-- An export changed. -/
def ofModifiedExport (modified : ModifiedExport) : Finding :=
  let before := modified.before
  { rule := modified.rule
    severity := .breaking
    symbol := before.findingSymbol
    message := transitionMessage modified
    before := some before.statement
    after := some modified.after.statement
    line := some modified.after.line
    owner := (ownerKind? before.kind false).map fun kind => (kind, before.findingSymbol) }

/-- There is a new export. -/
def ofAddedExport (e : Export) : Finding :=
  { rule := .exportAdded
    severity := .info
    symbol := e.findingSymbol
    message := s!"export {quoted e.findingSymbol} was added"
    after := some e.statement
    line := some e.line }

/-- The package changed. -/
def ofPackageChange : PackageChange → Finding
  | .exportsMapRemoved subpaths =>
    let list := ", ".intercalate subpaths
    { rule := .packageExportsRemoved
      severity := .breaking
      symbol := "package.json#exports"
      message := "package.json " ++ quoted "exports" ++ " map was removed; "
        ++ s!"entry points no longer exposed: {list}"
      before := some list }
  | .typeChanged before after =>
    { rule := .packageTypeChanged
      severity := .breaking
      symbol := "package.json#type"
      message := "package.json " ++ quoted "type"
        ++ s!" changed from {before.label} to {after.label}"
      before := some before.label
      after := some after.label }

/-- The module system changed. -/
def ofModuleSystemChange (change : ModuleSystemChange) : Finding :=
  { rule := .moduleSystemChanged
    severity := change.severity
    symbol := "<module>"
    message := s!"module system changed from {change.before.label} to {change.after.label}"
    before := some change.before.label
    after := some change.after.label }

/-- Every finding that a change implies, in the order of collection. -/
def all (change : SurfaceChange) : List Finding :=
  change.symbols.removed.map ofRemovedSymbol
    ++ change.symbols.added.map ofAddedSymbol
    ++ change.symbols.modified.flatMap (fun m => m.changes.map (ofDeclarationChange change.typed m))
    ++ change.exports.removed.map ofRemovedExport
    ++ change.exports.modified.map ofModifiedExport
    ++ change.exports.added.map ofAddedExport
    ++ change.package.map ofPackageChange
    ++ change.moduleSystem.toList.map ofModuleSystemChange

end Finding

end ApiImpact
