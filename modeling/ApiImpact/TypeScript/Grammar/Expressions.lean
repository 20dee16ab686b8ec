import ApiImpact.TypeScript.Grammar.Access

/-!
Expressions: operators by their binding strength, conditions, assignments and arrow functions.
-/

namespace ApiImpact.TypeScript.Grammar

open Reading

mutual

/-- The pattern that an expression means on the left of an assignment. -/
def assigned : Tree → Tree
  | .mk label role start stop children =>
    match label with
    | .node .array => .mk (.node .arrayPattern) role start stop (assignedAll children)
    | .node .object => .mk (.node .objectPattern) role start stop (assignedAll children)
    | .node .spread => .mk (.node .restPattern) role start stop (assignedAll children)
    | .node .pair => .mk (.node .pairPattern) role start stop (assignedLast children)
    | .node .assignment => .mk (.node .assignmentPattern) role start stop children
    | .node .shorthandPropertyIdentifier =>
      .mk (.node .shorthandPropertyPattern) role start stop children
    | _ => .mk label role start stop children

/-- All trees as patterns. -/
def assignedAll : List Tree → List Tree
  | [] => []
  | tree :: trees => assigned tree :: assignedAll trees

/-- The last tree as a pattern, the others as they are. -/
def assignedLast : List Tree → List Tree
  | [] => []
  | [tree] => [assigned tree]
  | tree :: next :: trees => tree :: assignedLast (next :: trees)

end

/-- The binding strength of a binary operator, if the sign or word is one. -/
def strength? (allowIn : Bool) : String → Option Nat
  | "??" => some 1
  | "||" => some 2
  | "&&" => some 3
  | "|" => some 4
  | "^" => some 5
  | "&" => some 6
  | "==" | "!=" | "===" | "!==" => some 7
  | "<" | "<=" | ">" | ">=" | "instanceof" => some 8
  | "in" => if allowIn then some 8 else none
  | "<<" | ">>" | ">>>" => some 9
  | "+" | "-" => some 10
  | "*" | "/" | "%" => some 11
  | "**" => some 12
  | _ => none

/-- The strength of `as` and `satisfies`, that of comparisons. -/
def castStrength : Nat := 8

/-- A binary operator of at least the strength `least`, with its strength. -/
def binaryOperator (allowIn : Bool) (least : Nat) : Reading (Tree × Nat) := do
  let mark ← peekSign
  let text ← if mark.isEmpty then peekWord else pure mark
  match strength? allowIn text with
  | none => failure
  | some strength =>
    check (least ≤ strength)
    return (← take (.token text) text.length, strength)

/-- The type that `operand` is taken to have. -/
def cast (parts : Parts) (operand : Tree) : Reading Tree := do
  check !(← afterBreak)
  match ← peekWord with
  | "as" =>
    let head ← word "as"
    return .branch .asExpression [operand, head, ← word "const" <|> parts .type]
  | "satisfies" =>
    return .branch .satisfiesExpression [operand, ← word "satisfies", ← parts .type]
  | _ => failure

/-- The operators of at least the strength `least` behind `left` with their operands, at most `limit`
of them. Operators of one strength group to the left, powers to the right. -/
def climb (parts : Parts) (allowIn : Bool) (least : Nat) (left : Tree) : Nat → Reading Tree
  | 0 => return left
  | limit + 1 => do
    match ← attempt (do check (least ≤ castStrength); cast parts left) with
    | some typed => climb parts allowIn least typed limit
    | none =>
      match ← attempt (binaryOperator allowIn least) with
      | none => return left
      | some (operator, strength) =>
        let operand ← parts .unary
        let right ← climb parts allowIn (if strength = 12 then 12 else strength + 1) operand limit
        climb parts allowIn least (.branch .binary [left, operator, right]) limit

/-- An operand with the signs that count it up or down behind it. -/
def postfixed (parts : Parts) : Reading Tree := do
  let operand ← access parts
  if ← afterBreak then return operand
  match ← attempt (signOf ["++", "--"]) with
  | some counting => return .branch .update [operand, counting]
  | none => return operand

/-- An operand with the operators before it. -/
def unary (parts : Parts) : Reading Tree := do
  match ← peekSign with
  | "!" | "~" | "+" | "-" =>
    return .branch .unary [← signOf ["!", "~", "+", "-"], ← parts .unary]
  | "++" | "--" => return .branch .update [← signOf ["++", "--"], ← parts .unary]
  | "<" | "<<" => do
    if ← elements then postfixed parts
    else return .branch .typeAssertion [← typeArguments parts, ← parts .unary]
  | _ =>
    match ← peekWord with
    | "typeof" | "void" | "delete" =>
      return .branch .unary [← wordOf ["typeof", "void", "delete"], ← parts .unary]
    | "await" =>
      (node .await do return [← word "await", ← parts .unary]) <|> postfixed parts
    | _ => postfixed parts

/-- An expression of binary operators. -/
def binary (parts : Parts) (allowIn : Bool) : Reading Tree := do
  let first ← parts .unary
  climb parts allowIn 1 first (← ahead).length

/-- An expression that may choose between two others. Before its colon an arrow function does not
state its return type if that would take the colon away. -/
def conditional (parts : Parts) (allowIn : Bool) : Reading Tree := do
  let condition ← binary parts allowIn
  match ← attempt (sign "?") with
  | none => return condition
  | some question =>
    let (yes, colon) ← (do
        let yes ← parts (.assignment true)
        return (yes, ← sign ":"))
      <|> do
        let yes ← parts .consequent
        return (yes, ← sign ":")
    return .branch .ternary [condition, question, yes, colon, ← parts (.assignment allowIn)]

/-- The signs that assign the result of an operator. -/
def assigningOperators : List String :=
  ["+=", "-=", "*=", "/=", "%=", "&=", "|=", "^=", "<<=", ">>=", ">>>=", "**=", "&&=", "||=", "??="]

/-- A conditional expression, or what is assigned to it. -/
def assignmentExpression (parts : Parts) (allowIn : Bool) : Reading Tree := do
  let left ← conditional parts allowIn
  match ← attempt (sign "=") with
  | some equals =>
    return .branch .assignment
      [(assigned left).as .left, equals, (← parts (.assignment allowIn)).as .right]
  | none =>
    match ← attempt (signOf assigningOperators) with
    | some operator =>
      return .branch .augmentedAssignment
        [left.as .left, operator, (← parts (.assignment allowIn)).as .right]
    | none => return left

/-- What a generator yields. -/
def yielded (parts : Parts) (allowIn : Bool) : Reading Tree :=
  node .yield do
    let head ← word "yield"
    if ← afterBreak then return [head]
    let star ← optionally (sign "*")
    return head :: star ++ (← optionally (parts (.assignment allowIn)))

/-- An expression without commas. A `typed` arrow function may state its return type. -/
def assignment (parts : Parts) (allowIn typed : Bool) : Reading Tree := do
  match ← attempt (arrowHead parts typed) with
  | some head => arrowFunction parts allowIn head
  | none =>
    if (← peekWord) == "yield" then yielded parts allowIn else assignmentExpression parts allowIn

/-- Expressions between commas. -/
def expression (parts : Parts) (allowIn : Bool) : Reading Tree := do
  let first ← parts (.assignment allowIn)
  let more ← many do return [← sign ",", ← parts (.assignment allowIn)]
  return if more.isEmpty then first else .branch .sequence (first :: more)

end ApiImpact.TypeScript.Grammar
