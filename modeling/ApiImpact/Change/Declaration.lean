import ApiImpact.Change.Parameter
import ApiImpact.Surface.Snapshot

/-!
Changes of declarations. Declarations are matched by the list they are kept in and their qualified
name, and then compared by shape.
-/

namespace ApiImpact

/-- A change inside a declaration. -/
inductive DeclarationChange where
  | parameters (change : ParameterChange)
  | constructor (change : ParameterChange)
  /-- The declared return type changed; when `narrowing`, to one with values of the old one only. -/
  | returnTypeChanged (before after : String) (narrowing : Bool)
  | asyncChanged (nowAsync : Bool)
  | methodRemoved (name : String)
  | constructorRemoved
  | propertyRemoved (name : String)
  | propertyAddedRequired (name : String)
  | propertyBecameRequired (name : String)
  | propertyTypeChanged (name before after : String)
  | definitionChanged (before after : String)
  | enumMemberRemoved (name : String)
  deriving DecidableEq, Repr

namespace DeclarationChange

/-- The names of `before` that `after` lacks. -/
def missing (before after : List String) : List String :=
  before.filter fun name => !after.contains name

/-- The change between two return types, if both are declared and differ. -/
def ofReturnTypes : Option String → Option String → List DeclarationChange
  | some before, some after =>
    if TypeText.differ before after then
      [returnTypeChanged before after (TypeText.isIncluded after before)]
    else []
  | _, _ => []

/-- The changes between two functions. With types the return type tells whether one is async. -/
def ofFunctions (typed : Bool) (before after : FunctionShape) : List DeclarationChange :=
  (ParameterChange.ofLists typed before.params after.params).map parameters
    ++ if typed then ofReturnTypes before.returnType after.returnType
      else if before.isAsync != after.isAsync then [asyncChanged after.isAsync]
      else []

/-- The changes between two constructors. With types a class without one has one without
parameters. -/
def ofConstructors (typed : Bool) :
    Option (List Parameter) → Option (List Parameter) → List DeclarationChange
  | some _, none => [constructorRemoved]
  | some before, some after => (ParameterChange.ofLists typed before after).map constructor
  | none, some after => if typed then (ParameterChange.ofLists typed [] after).map constructor else []
  | none, none => []

/-- The changes between two classes. -/
def ofClasses (typed : Bool) (before after : ClassShape) : List DeclarationChange :=
  (missing before.methods after.methods).map methodRemoved
    ++ ofConstructors typed before.constructor after.constructor

/-- Members by name; of several with one name the last counts. -/
def byName (properties : List Property) : Std.ExtTreeMap String Property :=
  .ofList (properties.map fun p => (p.name, p))

/-- The changes of one member of an interface that is still there. -/
def ofProperty (name : String) (before after : Property) : List DeclarationChange :=
  (if before.optional && !after.optional then [propertyBecameRequired name] else [])
    ++ match before.declaredType, after.declaredType with
      | some old, some new => if TypeText.differ old new then [propertyTypeChanged name old new] else []
      | _, _ => []

/-- The changes between two interfaces: first of the members of `before`, then the added ones. -/
def ofProperties (before after : List Property) : List DeclarationChange :=
  let old := byName before
  let new := byName after
  old.toList.flatMap (fun (name, property) =>
      match new[name]? with
      | none => [propertyRemoved name]
      | some current => ofProperty name property current)
    ++ (new.toList.filter fun (name, property) => !old.contains name && !property.optional).map
      fun (name, _) => propertyAddedRequired name

/-- The changes between two declarations of one name; declarations of different shapes have none. -/
def ofShapes (typed : Bool) : Shape → Shape → List DeclarationChange
  | .function before, .function after => ofFunctions typed before after
  | .classType before, .classType after => ofClasses typed before after
  | .interface before, .interface after => ofProperties before after
  | .typeAlias before, .typeAlias after =>
    if before = after then [] else [definitionChanged before after]
  | .enumeration before, .enumeration after => (missing before after).map enumMemberRemoved
  | _, _ => []

end DeclarationChange

/-- A declaration that changed inside. -/
structure ModifiedSymbol where
  before : Symbol
  after : Symbol
  changes : List DeclarationChange
  deriving DecidableEq, Repr

/-- How the declarations of a module changed. -/
structure SymbolChanges where
  added : List Symbol := []
  removed : List Symbol := []
  modified : List ModifiedSymbol := []
  deriving DecidableEq, Repr

namespace SymbolChanges

/-- Nothing changed. -/
def isEmpty (changes : SymbolChanges) : Bool :=
  changes.added.isEmpty && changes.removed.isEmpty && changes.modified.isEmpty

/-- Symbols by qualified name. -/
def byName (symbols : List Symbol) : Std.ExtTreeMap String Symbol :=
  .ofList (symbols.map fun s => (s.qualifiedName, s))

/-- The symbols of `symbols` whose names `others` lacks, by name. -/
def missing (symbols others : Std.ExtTreeMap String Symbol) : List Symbol :=
  (symbols.toList.filter fun (name, _) => !others.contains name).map (·.2)

/-- The modification of `before`, if `others` has its name and something changed inside. -/
def modification? (typed : Bool) (others : Std.ExtTreeMap String Symbol) (name : String)
    (before : Symbol) : Option ModifiedSymbol := do
  let after ← others[name]?
  let changes := DeclarationChange.ofShapes typed before.shape after.shape
  if changes.isEmpty then none else some ⟨before, after, changes⟩

/-- The changes between two lists of symbols. -/
def ofLists (typed : Bool) (before after : List Symbol) : SymbolChanges :=
  let old := byName before
  let new := byName after
  { added := missing new old
    removed := missing old new
    modified := old.toList.filterMap fun (name, symbol) => modification? typed new name symbol }

/-- The changes between the declarations of two snapshots, list by list. -/
def between (typed : Bool) (before after : Snapshot) : SymbolChanges :=
  let each := Shelf.all.map fun shelf => ofLists typed (before.shelf shelf) (after.shelf shelf)
  { added := each.flatMap (·.added)
    removed := each.flatMap (·.removed)
    modified := each.flatMap (·.modified) }

end SymbolChanges

end ApiImpact
