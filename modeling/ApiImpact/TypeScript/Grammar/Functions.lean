import ApiImpact.TypeScript.Grammar.Types

/-!
Functions as expressions and declarations, methods, and arrow functions.
-/

namespace ApiImpact.TypeScript.Grammar

open Reading

/-- The word `async` in front of what stands on its line. -/
def asyncMark : Reading Tree := do
  let head ← word "async"
  check !(← afterBreak)
  return head

/-- The words and signs before the name of a function. -/
def functionHead : Reading (List Tree) := do
  let async ← optionally asyncMark
  let function ← word "function"
  return async ++ [function] ++ (← optionally (sign "*"))

/-- A function as an expression; its name may be left out. -/
def functionExpression (parts : Parts) : Reading Tree := do
  let head ← functionHead
  let name ← optionally (inRole .name (nameAs .identifier))
  let signature ← callSignature parts
  let body ← inRole .body (parts .block)
  let generator := head.any (·.label == .token "*")
  return .branch (if generator then .generatorFunction else .functionExpression)
    (head ++ name ++ signature ++ [body])

/-- A function as a declaration. One without a body is a signature, which includes its semicolon. -/
def functionDeclaration (parts : Parts) : Reading Tree := do
  let head ← functionHead
  let name ← inRole .name (nameAs .identifier)
  let signature ← callSignature parts
  match ← attempt (inRole .body (parts .block)) with
  | some body =>
    let generator := head.any (·.label == .token "*")
    return .branch (if generator then .generatorFunctionDeclaration else .functionDeclaration)
      (head ++ [name] ++ signature ++ [body])
  | none => return .branch .functionSignature (head ++ [name] ++ signature ++ (← statementEnd))

/-- A method with its body. -/
def methodDefinition (parts : Parts) : Reading Tree := do
  let modifiers ← memberModifiers ["static", "override", "readonly", "async", "get", "set"]
  let star ← optionally (sign "*")
  let name ← inRole .name (propertyName parts)
  let question ← optionally (sign "?")
  let signature ← callSignature parts
  return .branch .methodDefinition
    (modifiers ++ star ++ [name] ++ question ++ signature ++ [(← parts .block).as .body])

/-- What stands before the arrow of an arrow function: one name, or parameters in parentheses. Only
a `typed` one may state its return type. -/
def arrowParameters (parts : Parts) (typed : Bool) : Reading (List Tree) :=
  (return [← inRole .parameter (nameAs .identifier)]) <|> do
    if typed then callSignature parts
    else return (← optionally (typeParameters parts)) ++
      [← inRole .parameters (formalParameters parts)]

/-- An arrow function up to its arrow. -/
def arrowHead (parts : Parts) (typed : Bool) : Reading (List Tree) := do
  let text ← ahead
  check (text.head?.any fun c => c == '(' || c == '<' || isIdentifierStart c || c == '\\')
  arrow [] <|> do arrow [← asyncMark]
where
  arrow (async : List Tree) : Reading (List Tree) := do
    let parameters ← arrowParameters parts typed
    return async ++ parameters ++ [← sign "=>"]

/-- An arrow function, whose body is a block or an expression. -/
def arrowFunction (parts : Parts) (allowIn : Bool) (head : List Tree) : Reading Tree := do
  let block := (← ahead).head? == some '\x7b'
  let body ← parts (if block then .block else .assignment allowIn)
  return .branch .arrowFunction (head ++ [body.as .body])

end ApiImpact.TypeScript.Grammar
