import ApiImpact.TypeScript.Grammar.Functions

/-!
Classes, as declarations and as expressions.
-/

namespace ApiImpact.TypeScript.Grammar

open Reading

/-- A block that runs when the class is set up. -/
def staticBlock (parts : Parts) : Reading Tree :=
  node .staticBlock do return [← word "static", (← parts .block).as .body]

/-- The end of a class member without a body. -/
def classMemberEnd : Reading (List Tree) := do
  match ← attempt (sign ",") with
  | some comma => return [comma]
  | none => statementEnd

/-- The words before the name of a class member. -/
def classModifiers : List String :=
  ["declare", "public", "private", "protected", "static", "override", "readonly", "abstract",
    "async", "accessor", "get", "set"]

/-- A method or field of a class. -/
def classMember (parts : Parts) : Reading (List Tree) := do
  let modifiers ← memberModifiers classModifiers
  let star ← optionally (sign "*")
  let name ← inRole .name (propertyName parts)
  let mark ← optionally (signOf ["?", "!"])
  let head := modifiers ++ star ++ [name] ++ mark
  match ← attempt (callSignature parts) with
  | some signature =>
    match ← attempt (inRole .body (parts .block)) with
    | some body => return [.branch .methodDefinition (head ++ signature ++ [body])]
    | none =>
      let abstract := modifiers.any (·.label == .token "abstract")
      return .branch (if abstract then .abstractMethodSignature else .methodSignature)
        (head ++ signature) :: (← classMemberEnd)
  | none =>
    let type ← optionally (inRole .type (typeClause parts))
    let value ← optionalList (initializer parts true)
    return .branch .publicField (head ++ type ++ value) :: (← classMemberEnd)

/-- The members of a class in braces. -/
def classBody (parts : Parts) : Reading Tree :=
  node .classBody (between "\x7b"
    (many (do
      let decorators ← many do return [← decorator parts]
      let member ← (return [← sign ";"]) <|> (return [← staticBlock parts])
        <|> (do return (← indexSignature parts) :: (← classMemberEnd))
        <|> classMember parts
      return decorators ++ member))
    "\x7d")

/-- What a class extends and implements. -/
def classHeritage (parts : Parts) : Reading Tree :=
  node .classHeritage do
    let extended ← optionally (node .extendsClause do
      let head ← word "extends"
      let base ← parts .access
      return [head, base.as .value] ++ (← optionally (typeArguments parts)))
    let implemented ← optionally (node .implementsClause do
      return (← word "implements") :: (← commaList1 (parts .type)))
    check !(extended.isEmpty && implemented.isEmpty)
    return extended ++ implemented

/-- What stands behind the word `class`: name, type parameters, heritage and body. -/
def classRest (parts : Parts) : Reading (List Tree) := do
  let name ← optionally do
    let text ← peekWord
    check (text != "extends" && text != "implements")
    inRole .name (nameAs .typeIdentifier)
  let types ← optionally (typeParameters parts)
  let heritage ← optionally (classHeritage parts)
  return name ++ types ++ heritage ++ [(← classBody parts).as .body]

/-- A class as an expression; its name may be left out. -/
def classExpression (parts : Parts) : Reading Tree :=
  node .classExpression do
    let decorators ← many do return [← decorator parts]
    return decorators ++ [← word "class"] ++ (← classRest parts)

/-- A class as a declaration. -/
def classDeclaration (parts : Parts) : Reading Tree := do
  let decorators ← many do return [← decorator parts]
  let abstract ← optionally (word "abstract")
  let head ← word "class"
  let rest ← classRest parts
  check (rest.any (·.role == some .name))
  return .branch (if abstract.isEmpty then .classDeclaration else .abstractClassDeclaration)
    (decorators ++ abstract ++ [head] ++ rest)

end ApiImpact.TypeScript.Grammar
