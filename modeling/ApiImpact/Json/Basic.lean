/-!
JSON values. Objects keep their members in the order in which they are written.
-/

namespace ApiImpact

/-- A JSON value. A number is an integer or `mantissa · 10 ^ exponent`. -/
inductive Json where
  | null
  | bool (value : Bool)
  | integer (value : Int)
  | decimal (mantissa : Int) (exponent : Int)
  | string (value : String)
  | array (items : List Json)
  | object (members : List (String × Json))
  deriving Inhabited, Repr, BEq

namespace Json

/-- A natural number. -/
def nat (n : Nat) : Json := .integer n

/-- The string, or null. -/
def optString (value : Option String) : Json := value.elim .null .string

/-- The number, or null. -/
def optNat (value : Option Nat) : Json := value.elim .null nat

/-- The list of strings. -/
def strings (values : List String) : Json := .array (values.map .string)

/-- The member named `name` of an object; the last one if there are several. -/
def get? (name : String) : Json → Option Json
  | .object members => (members.reverse.lookup name)
  | _ => none

/-- The text of a string. -/
def asString? : Json → Option String
  | .string value => some value
  | _ => none

/-- The value of an integer that is not negative. -/
def asNat? : Json → Option Nat
  | .integer (.ofNat n) => some n
  | _ => none

/-- The value of a truth value. -/
def asBool? : Json → Option Bool
  | .bool value => some value
  | _ => none

/-- The items of an array. -/
def asArray? : Json → Option (List Json)
  | .array items => some items
  | _ => none

/-- The members of an object. -/
def asObject? : Json → Option (List (String × Json))
  | .object members => some members
  | _ => none

end Json

end ApiImpact
