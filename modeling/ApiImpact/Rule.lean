/-!
The rules that findings fall under. Their identifiers are a stable vocabulary for other tools.
-/

namespace ApiImpact

/-- How serious a finding is for those who use the code. -/
inductive Severity where
  /-- Users fail to build or to run. -/
  | breaking
  /-- Users may be affected. -/
  | warning
  /-- A compatible change. -/
  | info
  deriving DecidableEq, Repr, Inhabited

namespace Severity

/-- The word for the severity. -/
def label : Severity → String
  | breaking => "breaking"
  | warning => "warning"
  | info => "info"

/-- How much the severity weighs: a more serious one weighs more. -/
def weight : Severity → Nat
  | breaking => 2
  | warning => 1
  | info => 0

end Severity

/-- What a finding is about. -/
inductive Rule where
  -- removed exports, the most specific first
  | exportedClassRemoved
  | exportStarRemoved
  | defaultExportRemoved
  | assignedExportRemoved
  | aliasedExportRemoved
  | reexportRemoved
  | exportRemoved
  -- the package
  | packageExportsRemoved
  | packageTypeChanged
  -- changed exports
  | exportDefaultToNamed
  | exportNamedToDefault
  | exportKindChanged
  | moduleSystemChanged
  -- changes inside a declaration that stays
  | functionRequiredParamAdded
  | functionParamBecameRequired
  | functionParamTypeChanged
  | functionReturnTypeChanged
  | functionSignatureChanged
  | classConstructorRemoved
  | classConstructorChanged
  | classMethodRemoved
  | interfacePropertyRemoved
  | interfacePropertyAddedRequired
  | interfacePropertyBecameRequired
  | interfacePropertyTypeChanged
  | enumMemberRemoved
  | typeAliasChanged
  -- removed declarations; a rule about the export of the same name wins
  | functionRemoved
  | classRemoved
  | interfaceRemoved
  | typeAliasRemoved
  | enumRemoved
  | variableRemoved
  -- additions
  | exportAdded
  | symbolAdded
  deriving DecidableEq, Repr, Inhabited

/-- What is laid down about a rule. -/
structure RuleEntry where
  rule : Rule
  /-- The stable identifier. -/
  id : String
  /-- Of two findings of one severity about one symbol, the one of higher priority stays. -/
  priority : Nat
  /-- Findings come from patterns in the text, whatever the language. -/
  heuristic : Bool := false
  /-- Messages are explicit enough to do without a disclaimer. -/
  skipsDisclaimer : Bool := false
  deriving Repr, Inhabited

namespace Rule

/-- All rules with what is laid down about them. -/
def table : List RuleEntry := [
  { rule := exportedClassRemoved, id := "exported-class-removed", priority := 100 },
  { rule := exportStarRemoved, id := "export-star-removed", priority := 95 },
  { rule := defaultExportRemoved, id := "default-export-removed", priority := 90 },
  { rule := assignedExportRemoved, id := "cjs-export-removed", priority := 85, heuristic := true },
  { rule := aliasedExportRemoved, id := "aliased-export-removed", priority := 80 },
  { rule := reexportRemoved, id := "reexport-removed", priority := 75 },
  { rule := exportRemoved, id := "export-removed", priority := 70 },
  { rule := packageExportsRemoved, id := "package-exports-removed", priority := 98,
    skipsDisclaimer := true },
  { rule := packageTypeChanged, id := "package-type-changed", priority := 92,
    skipsDisclaimer := true },
  { rule := exportDefaultToNamed, id := "export-default-to-named", priority := 65 },
  { rule := exportNamedToDefault, id := "export-named-to-default", priority := 65 },
  { rule := exportKindChanged, id := "export-kind-changed", priority := 60 },
  { rule := moduleSystemChanged, id := "module-system-changed", priority := 55, heuristic := true },
  { rule := functionRequiredParamAdded, id := "function-required-param-added", priority := 50 },
  { rule := functionParamBecameRequired, id := "function-param-became-required", priority := 49 },
  { rule := functionParamTypeChanged, id := "function-param-type-changed", priority := 48 },
  { rule := functionReturnTypeChanged, id := "function-return-type-changed", priority := 47 },
  { rule := functionSignatureChanged, id := "function-signature-changed", priority := 45,
    heuristic := true },
  { rule := classConstructorRemoved, id := "class-constructor-removed", priority := 46 },
  { rule := classConstructorChanged, id := "class-constructor-changed", priority := 45 },
  { rule := classMethodRemoved, id := "class-method-removed", priority := 44 },
  { rule := interfacePropertyRemoved, id := "interface-property-removed", priority := 46 },
  { rule := interfacePropertyAddedRequired, id := "interface-property-added-required",
    priority := 45 },
  { rule := interfacePropertyBecameRequired, id := "interface-property-became-required",
    priority := 44 },
  { rule := interfacePropertyTypeChanged, id := "interface-property-type-changed", priority := 43 },
  { rule := enumMemberRemoved, id := "enum-member-removed", priority := 46 },
  { rule := typeAliasChanged, id := "type-alias-changed", priority := 40 },
  { rule := functionRemoved, id := "function-removed", priority := 30 },
  { rule := classRemoved, id := "class-removed", priority := 30 },
  { rule := interfaceRemoved, id := "interface-removed", priority := 30 },
  { rule := typeAliasRemoved, id := "type-alias-removed", priority := 30 },
  { rule := enumRemoved, id := "enum-removed", priority := 30 },
  { rule := variableRemoved, id := "variable-removed", priority := 30 },
  { rule := exportAdded, id := "export-added", priority := 10, skipsDisclaimer := true },
  { rule := symbolAdded, id := "symbol-added", priority := 5, skipsDisclaimer := true }]

/-- All rules in the order of the table. -/
def all : List Rule := table.map (·.rule)

/-- What is laid down about the rule. -/
def entry (rule : Rule) : RuleEntry :=
  (table.find? (·.rule == rule)).getD default

/-- The stable identifier. -/
def id (rule : Rule) : String := rule.entry.id

/-- The rank among findings of one severity about one symbol. -/
def priority (rule : Rule) : Nat := rule.entry.priority

/-- Findings come from patterns in the text, whatever the language. -/
def isHeuristic (rule : Rule) : Bool := rule.entry.heuristic

/-- Messages never carry the disclaimer. -/
def skipsDisclaimer (rule : Rule) : Bool := rule.entry.skipsDisclaimer

/-- The rule with this identifier. -/
def ofId? (id : String) : Option Rule :=
  (table.find? (·.id == id)).map (·.rule)

end Rule

end ApiImpact
