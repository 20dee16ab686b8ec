/-!
Declarations on the surface of a module: what is declared, where, and in which shape.
-/

namespace ApiImpact

/-- What a declaration declares. -/
inductive SymbolKind where
  | function
  | classType
  | interface
  | typeAlias
  | enumeration
  | binding
  | method
  deriving DecidableEq, Repr, Inhabited

namespace SymbolKind

/-- The word for the kind in messages. -/
def label : SymbolKind → String
  | function => "function"
  | classType => "class"
  | interface => "interface"
  | typeAlias => "type alias"
  | enumeration => "enum"
  | binding => "variable"
  | method => "method"

/-- The name of the kind in data. -/
def id : SymbolKind → String
  | typeAlias => "type"
  | kind => kind.label

end SymbolKind

/-- The list of a snapshot in which a symbol is kept. Methods stand among the functions. -/
inductive Shelf where
  | functions
  | classes
  | interfaces
  | typeAliases
  | enums
  | variables
  deriving DecidableEq, Repr, Inhabited

/-- The lists of a snapshot, in the order in which they are searched and compared. -/
def Shelf.all : List Shelf :=
  [.functions, .classes, .interfaces, .typeAliases, .enums, .variables]

/-- The list in which symbols of this kind are kept. -/
def SymbolKind.shelf : SymbolKind → Shelf
  | function | method => .functions
  | classType => .classes
  | interface => .interfaces
  | typeAlias => .typeAliases
  | enumeration => .enums
  | binding => .variables

/-- One formal parameter. -/
structure Parameter where
  /-- The name it binds, or the text of its pattern. -/
  name : String
  /-- The declared type without the colon. -/
  declaredType : Option String := none
  optional : Bool := false
  hasDefault : Bool := false
  rest : Bool := false
  deriving DecidableEq, Repr, Inhabited

/-- A caller has to supply an argument for the parameter. -/
def Parameter.isRequired (p : Parameter) : Bool :=
  !p.optional && !p.hasDefault && !p.rest

/-- The shape of a function. -/
structure FunctionShape where
  params : List Parameter := []
  returnType : Option String := none
  isAsync : Bool := false
  deriving DecidableEq, Repr, Inhabited

/-- The public members of a class. -/
structure ClassShape where
  /-- The names of the methods, the constructor left out. -/
  methods : List String := []
  /-- The parameters of the constructor, if one is declared. -/
  constructor : Option (List Parameter) := none
  properties : List String := []
  deriving DecidableEq, Repr, Inhabited

/-- One member of an interface. -/
structure Property where
  name : String
  optional : Bool
  /-- The declared type; for methods, the text of the call signature. -/
  declaredType : Option String
  deriving DecidableEq, Repr, Inhabited

/-- What is known of a declaration beyond its name, by kind. -/
inductive Shape where
  | function (shape : FunctionShape)
  | classType (shape : ClassShape)
  | interface (properties : List Property)
  | typeAlias (definition : String)
  | enumeration (members : List String)
  | binding (declaredType : Option String)
  deriving DecidableEq, Repr, Inhabited

/-- A declaration. -/
structure Symbol where
  /-- The local name, `default` for a default export without a name. -/
  name : String
  qualifiedName : String
  kind : SymbolKind
  line : Nat
  column : Nat
  /-- The head of the declaration in one line. -/
  signature : String
  exported : Bool := false
  shape : Shape
  deriving DecidableEq, Repr, Inhabited

/-- The list in which the symbol is kept. -/
def Symbol.shelf (s : Symbol) : Shelf := s.kind.shelf

end ApiImpact
