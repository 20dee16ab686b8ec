import ApiImpact.TypeScript.Grammar.Names

/-!
Types: parameters with their types, members of object types and type expressions.
-/

namespace ApiImpact.TypeScript.Grammar

open Reading

/-- A type behind a colon. -/
def typeClause (parts : Parts) : Reading Tree :=
  node .typeClause do return [← sign ":", ← parts .type]

/-- What a type predicate speaks of. -/
def predicateSubject : Reading Tree :=
  (do check ((← peekWord) == "this"); anyWord .this) <|> identifier

/-- The claim that a parameter has a type. -/
def typePredicate (parts : Parts) : Reading Tree := do
  let subject ← predicateSubject
  check !(← afterBreak)
  return .branch .typePredicate [subject.as .name, ← word "is", (← parts .type).as .type]

/-- The claim that holds when a function returns. -/
def assertion (parts : Parts) : Reading Tree := do
  let head ← word "asserts"
  check !(← afterBreak)
  return .branch .asserts [head, ← typePredicate parts <|> predicateSubject]

/-- What a function returns: an assertion, a predicate or a type. -/
def returned (parts : Parts) : Reading Tree :=
  assertion parts <|> typePredicate parts <|> parts .type

/-- The return type of a function, behind a colon. -/
def returnType (parts : Parts) : Reading Tree := do
  let colon ← sign ":"
  let type ← returned parts
  let kind : Kind := match type.kind? with
    | some .asserts => .assertsClause
    | some .typePredicate => .typePredicateClause
    | _ => .typeClause
  return (Tree.branch kind [colon, type]).as .returnType

/-- One type parameter, with its modifier, constraint and default. -/
def typeParameter (parts : Parts) : Reading Tree := do
  let modifiers ← optionally (word "const")
  let name ← anyWord .typeIdentifier
  let constraint ← optionally
    (node .constraint do return [← word "extends", ← parts .type])
  let default ← optionally (node .defaultType do return [← sign "=", ← parts .type])
  return .branch .typeParameter (modifiers ++ [name.as .name] ++ constraint ++ default)

/-- The type parameters of a declaration. -/
def typeParameters (parts : Parts) : Reading Tree :=
  node .typeParameters do
    let opening ← signPart "<"
    let inner ← commaList (typeParameter parts)
    return opening :: inner ++ [← signPart ">"]

/-- The type arguments of a reference or call. -/
def typeArguments (parts : Parts) : Reading Tree :=
  node .typeArguments do
    let opening ← signPart "<"
    let inner ← commaList (parts .type)
    return opening :: inner ++ [← signPart ">"]

/-- The accesses behind the name that `start` begins with. -/
def accessChain (start : Tree) : Nat → Reading Tree
  | 0 => return start
  | limit + 1 => do
    match ← attempt (sign ".") with
    | none => return start
    | some dot =>
      let property ← anyWord .propertyIdentifier <|> privateName
      accessChain (.branch .member [start.as .object, dot, property.as .property]) limit

/-- A decorator: a name, an access or a call behind an at sign, or an expression in parentheses. -/
def decorator (parts : Parts) : Reading Tree :=
  node .decorator do
    let head ← sign "@"
    let start ← identifier <|> parenthesized parts
    let target ← accessChain start (← ahead).length
    let call ← optionalList do
      return (← optionally (typeArguments parts)) ++ [← arguments parts]
    return [head, if call.isEmpty then target else .branch .call (target :: call)]

/-- The modifiers of a parameter. A modifier is a name unless a pattern follows it. -/
def parameterModifiers : Reading (List Tree) :=
  many do
    let text ← peekWord
    check (["public", "private", "protected", "override", "readonly"].contains text)
    let label : Label := match text with
      | "readonly" => .token text
      | "override" => .node .overrideModifier
      | _ => .node .accessibilityModifier
    let modifier ← take label text.length
    let next ← ahead
    check ((← peekWord) != "" || next.head? == some '\x7b' || next.head? == some '['
      || "...".toList.isPrefixOf next)
    return [modifier]

/-- One formal parameter. -/
def parameter (parts : Parts) : Reading Tree := do
  let decorators ← many do return [← decorator parts]
  let modifiers ← parameterModifiers
  let pattern ← (do check ((← peekWord) == "this"); anyWord .this) <|> restPattern parts
    <|> parts .pattern
  let question ← optionally (sign "?")
  let type ← optionally (inRole .type (typeClause parts))
  let value ← optionalList (initializer parts true)
  return .branch (if question.isEmpty then .requiredParameter else .optionalParameter)
    (decorators ++ modifiers ++ [pattern.as .pattern] ++ question ++ type ++ value)

/-- The parameters of a function in parentheses. -/
def formalParameters (parts : Parts) : Reading Tree :=
  node .formalParameters (between "(" (commaList (parameter parts)) ")")

/-- Type parameters, parameters and return type of a function. -/
def callSignature (parts : Parts) : Reading (List Tree) := do
  let types ← optionally (typeParameters parts)
  let parameters ← inRole .parameters (formalParameters parts)
  return types ++ [parameters] ++ (← optionally (returnType parts))

/-- The part of a mapped type that names its keys. -/
def mappedClause (parts : Parts) : Reading (List Tree) := do
  let name ← anyWord .typeIdentifier
  let within ← word "in"
  let keys ← parts .type
  let renamed ← optionalList do return [← word "as", ← parts .type]
  return [.branch .mappedTypeClause ([name, within, keys] ++ renamed)]

/-- The key of an index signature with its type. -/
def indexKey (parts : Parts) : Reading (List Tree) := do
  return [(← identifier).as .name, ← sign ":", ← parts .type]

/-- The type of an indexed member; a question mark with or without a sign may precede its colon. -/
def indexedType (parts : Parts) : Reading Tree :=
  node .typeClause do
    let optionality ← optionalList do
      return (← optionally (signOf ["+", "-"])) ++ [← sign "?"]
    return optionality ++ [← sign ":", ← parts .type]

/-- Members with computed keys. -/
def indexSignature (parts : Parts) : Reading Tree :=
  node .indexSignature do
    let isStatic ← optionalList do return [← word "static"]
    let readonly ← optionalList do
      return (← optionally (signOf ["+", "-"])) ++ [← word "readonly"]
    let key ← between "[" (indexKey parts <|> mappedClause parts) "]"
    return isStatic ++ readonly ++ key ++ (← optionally (inRole .type (indexedType parts)))

/-- A member that is called or constructed. -/
def unnamedSignature (parts : Parts) : Reading Tree := do
  let heads ← optionalList do
    return (← optionally (word "abstract")) ++ [← word "new"]
  let signature ← callSignature parts
  return .branch (if heads.isEmpty then .callSignature else .constructSignature) (heads ++ signature)

/-- A named member of an object type: a method or a property. -/
def namedSignature (parts : Parts) : Reading Tree := do
  let modifiers ← memberModifiers
    ["public", "private", "protected", "static", "override", "readonly", "async", "get", "set"]
  let star ← optionally (sign "*")
  let name ← inRole .name (propertyName parts)
  let question ← optionally (sign "?")
  match ← attempt (callSignature parts) with
  | some signature =>
    return .branch .methodSignature (modifiers ++ star ++ [name] ++ question ++ signature)
  | none =>
    let type ← optionally (inRole .type (typeClause parts))
    return .branch .propertySignature (modifiers ++ star ++ [name] ++ question ++ type)

/-- The end of a member of an object type. -/
def memberEnd : Reading (List Tree) := do
  match ← attempt (signOf [",", ";"]) with
  | some separator => return [separator]
  | none =>
    check ((← ahead).head? == some '\x7d' || (← afterBreak))
    return []

/-- The members of an object type or interface in braces, as a node of `kind`. -/
def memberList (parts : Parts) (kind : Kind) : Reading Tree :=
  node kind (between "\x7b"
    (many (do
      let member ← unnamedSignature parts <|> indexSignature parts <|> namedSignature parts
      return member :: (← memberEnd)))
    "\x7d")

/-- The type of functions. -/
def functionType (parts : Parts) : Reading Tree :=
  node .functionType do
    let types ← optionally (typeParameters parts)
    let parameters ← inRole .parameters (formalParameters parts)
    return types ++ [parameters, ← sign "=>", (← returned parts).as .returnType]

/-- The type of constructors. -/
def constructorType (parts : Parts) : Reading Tree :=
  node .constructorType do
    let abstract ← optionally (word "abstract")
    let new ← word "new"
    let types ← optionally (typeParameters parts)
    let parameters ← inRole .parameters (formalParameters parts)
    return abstract ++ [new] ++ types ++ [parameters, ← sign "=>", (← parts .type).as .type]

/-- One element of a tuple type. -/
def tupleElement (parts : Parts) : Reading Tree :=
  (node .tupleParameter do
    let dots ← optionally (sign "...")
    let name ← anyWord .identifier
    let question ← optionally (sign "?")
    return dots ++ [name.as .name] ++ question ++ [(← typeClause parts).as .type])
  <|> (node .restType do return [← sign "...", ← parts .type])
  <|> do
    let type ← parts .type
    match ← attempt (sign "?") with
    | some question => return .branch .optionalType [type, question]
    | none => return type

/-- The module that an import type names. -/
def importedModule (parts : Parts) : Reading Tree := do
  let head ← word "import"
  let arguments ← node .arguments (between "(" (commaList (parts .type)) ")")
  return .branch .call [head.relabel .importCall, arguments]

/-- A query for the type of a value. -/
def typeQuery (parts : Parts) : Reading Tree :=
  node .typeQuery do
    let head ← word "typeof"
    let start ← importedModule parts <|> predicateSubject
    let target ← accessChain start (← ahead).length
    let broken ← afterBreak
    let arguments ← if broken then pure [] else optionally (typeArguments parts)
    return [head, target] ++ arguments

/-- A named type with the type arguments behind it, if there are any. -/
def withArguments (parts : Parts) (name : Tree) : Reading Tree := do
  match ← attempt (typeArguments parts) with
  | some arguments => return .branch .genericType [name.as .name, arguments]
  | none => return name

/-- The name `first` followed by the property `next`. A qualified name that is itself looked into
is an access. -/
def qualifyBy (first dot next : Tree) : Tree :=
  let object := if first.is .nestedIdentifier then first.relabel .member else first
  .branch .nestedIdentifier [object.as .object, dot, next.as .property]

/-- The names that lead to a type, and the type's own name last. -/
def qualify (first : Tree) : List Tree → Tree
  | [] => first.relabel .typeIdentifier
  | [dot, last] => .branch .nestedTypeIdentifier [first, dot, (last.relabel .typeIdentifier).as .name]
  | dot :: next :: more => qualify (qualifyBy first dot next) more
  | [_] => first

/-- A type that is referred to by name. -/
def namedType (parts : Parts) : Reading Tree := do
  let first ← nameAs .identifier
  let more ← many do return [← sign ".", ← anyWord .propertyIdentifier]
  withArguments parts (qualify first more)

/-- A type of a module that is imported in place. -/
def importType (parts : Parts) : Reading Tree := do
  let start ← importedModule parts
  withArguments parts (← accessChain start (← ahead).length)

/-- The types that have a word of their own. -/
def predefined : List String :=
  ["any", "number", "boolean", "string", "symbol", "void", "unknown", "never", "object"]

/-- A type that is one word or literal. -/
def simpleType : Reading Tree := do
  let text ← peekWord
  if predefined.contains text then
    let name ← anyWord .predefinedType
    check ((← peekSign) != ".")
    return name
  else if text == "this" then anyWord .thisType
  else if ["true", "false", "null", "undefined"].contains text then
    return .branch .literalType [← anyWord .boolean]
  else
    node .literalType (do return [← string <|> number])
      <|> node .literalType (do return [← sign "-", ← number])

/-- A type without operators before or behind it. -/
def primaryType (parts : Parts) : Reading Tree :=
  simpleType <|> typeQuery parts <|> importType parts <|> namedType parts
    <|> memberList parts .objectType
    <|> node .tupleType (between "[" (commaList (tupleElement parts)) "]")
    <|> node .parenthesizedType (between "(" (return [← parts .type]) ")")
    <|> template .templateLiteralType (parts .type)

/-- The array and index brackets behind a type. -/
def typeBrackets (parts : Parts) (start : Tree) : Nat → Reading Tree
  | 0 => return start
  | limit + 1 => do
    if ← afterBreak then return start
    match ← attempt (between "[" (pure []) "]") with
    | some brackets => typeBrackets parts (.branch .arrayType (start :: brackets)) limit
    | none =>
      match ← attempt (between "[" (return [← parts .type]) "]") with
      | some brackets => typeBrackets parts (.branch .lookupType (start :: brackets)) limit
      | none => return start

/-- The constraint of an inferred type, unless it is the condition of a conditional type. -/
def inferConstraint (parts : Parts) : Reading Tree :=
  node .constraint do
    let head ← word "extends"
    let bound ← parts .typeWithoutCondition
    check ((← peekSign) != "?")
    return [head, bound]

/-- An operand of unions and intersections: a type with the operators before it. -/
def typeOperator (parts : Parts) : Reading Tree := do
  match ← peekWord with
  | "keyof" => prefixed .indexTypeQuery "keyof"
  | "readonly" => prefixed .readonlyType "readonly"
  | "unique" => prefixed .predefinedType "unique"
  | "infer" =>
    (node .inferType do
      let head ← word "infer"
      let name ← nameAs .typeIdentifier
      return [head, name] ++ (← optionally (inferConstraint parts))) <|> operand
  | "new" | "abstract" => constructorType parts <|> operand
  | _ => functionType parts <|> operand
where
  operand : Reading Tree := do
    let start ← primaryType parts
    typeBrackets parts start (← ahead).length
  prefixed (kind : Kind) (text : String) : Reading Tree :=
    (node kind do return [← word text, ← parts .typeOperator]) <|> operand

/-- Operands that `reader` reads with `separator` between them, as a node of `kind` if there are
several. A separator may also lead. -/
def joined (kind : Kind) (separator : String) (reader : Reading Tree) : Reading Tree := do
  let leading ← optionally (sign separator)
  let first ← reader
  let more ← many do return [← sign separator, ← reader]
  return if leading.isEmpty && more.isEmpty then first else .branch kind (leading ++ first :: more)

/-- A union of intersections of operands. -/
def typeWithoutCondition (parts : Parts) : Reading Tree :=
  joined .unionType "|" (joined .intersectionType "&" (parts .typeOperator))

/-- A type, perhaps one that depends on a condition. -/
def type (parts : Parts) : Reading Tree := do
  let subject ← typeWithoutCondition parts
  if ← afterBreak then
    if (← peekWord) != "extends" then return subject
  match ← attempt (word "extends") with
  | none => return subject
  | some head =>
    let bound ← parts .typeWithoutCondition
    let question ← sign "?"
    let yes ← parts .type
    let colon ← sign ":"
    return .branch .conditionalType [subject, head, bound, question, yes, colon, ← parts .type]

end ApiImpact.TypeScript.Grammar
