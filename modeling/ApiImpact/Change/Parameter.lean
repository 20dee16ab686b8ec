import ApiImpact.Surface.Symbol
import ApiImpact.Text.Bracket

/-!
Changes of a parameter list. Parameters are compared by position, their declared types by text: a type is
read as the union of its members.
-/

namespace ApiImpact.TypeText

open Text

/-- The type with single spaces between words and no semicolon at its end. -/
def normalize (type : List Char) : List Char :=
  dropEndWhile (· == ';') (collapse type)

/-- The types differ in more than their spacing. -/
def differ (before after : String) : Bool :=
  normalize before.toList != normalize after.toList

/-- The members of a union; a type that is none is its only member. -/
def members (type : String) : List (List Char) :=
  ((piecesOf '|' type.toList).map fun (_, piece) => normalize piece).filter (!·.isEmpty)

/-- The type takes every value. -/
def isAny (type : String) : Bool :=
  (members type).contains "any".toList || (members type).contains "unknown".toList

/-- Every value of `inner` is one of `outer`, as far as their members show. -/
def isIncluded (inner outer : String) : Bool :=
  isAny outer || (members inner).all (members outer).contains

end ApiImpact.TypeText

namespace ApiImpact

/-- A change of a parameter list. -/
inductive ParameterChange where
  | countDecreased (before after : Nat)
  | restRemoved
  /-- There is a new parameter that callers have to supply. -/
  | requiredAdded (name : String)
  /-- Callers have to supply a parameter that they could leave out. -/
  | becameRequired (name : String)
  /-- The declared type changed; when `widening`, to one that takes all values of the old one. -/
  | typeChanged (name before after : String) (widening : Bool)
  deriving DecidableEq, Repr

namespace ParameterChange

/-- The change between two declared types, if both are declared and differ. -/
def ofTypes (name : String) : Option String → Option String → List ParameterChange
  | some before, some after =>
    if TypeText.differ before after then
      [typeChanged name before after (TypeText.isIncluded before after)]
    else []
  | _, _ => []

/-- The changes between two parameters at one position. -/
def ofPair (typed : Bool) (before after : Parameter) : List ParameterChange :=
  (if !before.isRequired && after.isRequired then [becameRequired after.name] else [])
    ++ if typed then ofTypes after.name before.declaredType after.declaredType else []

/-- The parameters behind those of `before` that callers have to supply. A rest parameter at the end
of `before` took their arguments already. -/
def ofAdded (before after : List Parameter) : List ParameterChange :=
  if before.getLast?.any (·.rest) then []
  else ((after.drop before.length).filter (·.isRequired)).map fun p => requiredAdded p.name

/-- The changes between two lists. Declared types count only when `typed`, and so do added parameters:
without types callers may leave any argument out. -/
def ofLists (typed : Bool) (before after : List Parameter) : List ParameterChange :=
  (if after.length < before.length then [countDecreased before.length after.length] else [])
    ++ (if before.any (·.rest) && !after.any (·.rest) then [restRemoved] else [])
    ++ (before.zip after).flatMap (fun (old, new) => ofPair typed old new)
    ++ if typed then ofAdded before after else []

end ParameterChange

end ApiImpact
