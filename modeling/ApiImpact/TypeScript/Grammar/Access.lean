import ApiImpact.TypeScript.Grammar.Classes
import ApiImpact.TypeScript.Grammar.Elements

/-!
Operands: literals, names, and the accesses and calls behind them.
-/

namespace ApiImpact.TypeScript.Grammar

open Reading

/-- A property with its value. -/
def pair (parts : Parts) : Reading Tree := do
  let key ← propertyName parts
  let colon ← sign ":"
  return .branch .pair [key, colon, (← parts (.assignment true)).as .value]

/-- A property named and valued by a variable; with a default it can only be assigned to. -/
def shorthand (parts : Parts) : Reading Tree := do
  let name ← nameAs .shorthandPropertyIdentifier
  match ← attempt (sign "=") with
  | none => return name
  | some equals =>
    return .branch .objectAssignmentPattern
      [(name.relabel .shorthandPropertyPattern).as .left, equals,
        (← parts (.assignment true)).as .right]

/-- An object literal. -/
def objectLiteral (parts : Parts) : Reading Tree :=
  node .object (between "\x7b"
    (commaList (spread parts <|> methodDefinition parts <|> pair parts <|> shorthand parts)) "\x7d")

/-- An array literal. Elements may be left out. -/
def arrayLiteral (parts : Parts) : Reading Tree :=
  node .array (between "["
    (many (return [← sign "," <|> spread parts <|> parts (.assignment true)])) "]")

/-- A regular expression. -/
def regex : Reading Tree := do
  match regexLength? (← ahead) with
  | some length => take (.node .regex) length
  | none => failure

/-- What the word `import` means inside an expression: the running module, or a call that loads one. -/
def importOperand (parts : Parts) : Reading Tree := do
  let head ← word "import"
  (node .metaProperty (return [head, ← sign ".", ← word "meta"]))
    <|> node .call do return [head.relabel .importCall, ← arguments parts]

/-- An operand that begins with a word. -/
def wordOperand (parts : Parts) : Reading Tree := do
  match ← peekWord with
  | "this" => anyWord .this
  | "super" => anyWord .super
  | "null" => anyWord .null
  | "true" | "false" => anyWord .boolean
  | "function" => functionExpression parts
  | "async" => functionExpression parts <|> identifier
  | "class" => classExpression parts
  | "import" => importOperand parts
  | _ => identifier

/-- An operand without what may follow it. -/
def simpleOperand (parts : Parts) : Reading Tree := do
  match ← ahead with
  | [] => failure
  | '(' :: _ => parenthesized parts
  | '[' :: _ => arrayLiteral parts
  | '\x7b' :: _ => objectLiteral parts
  | '"' :: _ | '\'' :: _ => string
  | '\x60' :: _ => template .templateString (parts (.expression true))
  | '/' :: _ => regex
  | '#' :: _ => privateName
  | '@' :: _ => classExpression parts
  | '<' :: _ => do
    check (← elements)
    elementHere parts
  | '.' :: _ => number
  | c :: _ => if c.isDigit then number else wordOperand parts

/-- What follows type arguments that do not belong to a call. -/
def endsInstantiation : Reading Bool := do
  if ← afterBreak then return true
  let text ← peekSign
  return (← ahead).isEmpty || [")", "]", ":", ";", ",", ".", "?.", "=", "==", "===", "!=", "!==",
    "&&", "||", "??", "?", "^", "|", "&", "\x7d"].contains text

/-- Type arguments behind `target`: of a call, or of a function that is not called yet. -/
def applied (parts : Parts) (target : Tree) : Reading Tree := do
  let types ← typeArguments parts
  match (← ahead).head? with
  | some '(' => return .branch .call [target, types, ← arguments parts]
  | some '\x60' =>
    return .branch .call [target, types, ← template .templateString (parts (.expression true))]
  | _ =>
    check (← endsInstantiation)
    return .branch .instantiation [target, types]

/-- The index of an element in brackets. -/
def subscriptOf (parts : Parts) (head : List Tree) : Reading Tree :=
  node .subscript do
    return head ++ (← between "[" (return [(← parts (.expression true)).as .index]) "]")

/-- An access or call that is left out when `target` is missing. -/
def optionalLink (parts : Parts) (target : Tree) : Reading Tree := do
  let chain := (← sign "?.").relabel .optionalChain
  let head := [target.as .object, chain]
  match (← ahead).head? with
  | some '[' => subscriptOf parts head
  | some '(' => return .branch .call [target, chain, ← arguments parts]
  | some '<' => return .branch .call [target, chain, ← typeArguments parts, ← arguments parts]
  | some '\x60' =>
    return .branch .call [target, chain, ← template .templateString (parts (.expression true))]
  | _ =>
    let property ← anyWord .propertyIdentifier <|> privateName
    return .branch .member (head ++ [property.as .property])

/-- One access or call behind `target`; calls only if they are allowed. -/
def link (parts : Parts) (calls : Bool) (target : Tree) : Reading Tree := do
  match ← peekSign with
  | "." =>
    let dot ← sign "."
    let property ← anyWord .propertyIdentifier <|> privateName
    return .branch .member [target.as .object, dot, property.as .property]
  | "[" => subscriptOf parts [target.as .object]
  | "!" =>
    check !(← afterBreak)
    return .branch .nonNull [target, ← sign "!"]
  | "?." => do
    check calls
    optionalLink parts target
  | "(" => do
    check calls
    return .branch .call [target, ← arguments parts]
  | "<" | "<<" => do
    check calls
    applied parts target
  | "\x60" => return .branch .call [target, ← template .templateString (parts (.expression true))]
  | _ => failure

/-- All accesses and calls behind `target`, at most `limit`. -/
def links (parts : Parts) (calls : Bool) (target : Tree) : Nat → Reading Tree
  | 0 => return target
  | limit + 1 => do
    match ← attempt (link parts calls target) with
    | none => return target
    | some longer => links parts calls longer limit

/-- A new object: a constructor with its arguments, which may be left out. Words `new` may be
repeated, at most `limit` times. -/
def newObject (parts : Parts) : Nat → Reading Tree
  | 0 => failure
  | limit + 1 => do
    let head ← word "new"
    (node .metaProperty (return [head, ← sign ".", ← word "target"])) <|> do
      let start ← newObject parts limit <|> simpleOperand parts
      let constructor ← links parts false start (← ahead).length
      let applied ← optionalList do
        return (← optionally (typeArguments parts)) ++ [← arguments parts]
      return .branch .new (head :: constructor :: applied)

/-- An operand with all accesses and calls behind it. -/
def access (parts : Parts) : Reading Tree := do
  let size := (← ahead).length
  let start ← if (← peekWord) == "new" then newObject parts size else simpleOperand parts
  links parts true start size

end ApiImpact.TypeScript.Grammar
