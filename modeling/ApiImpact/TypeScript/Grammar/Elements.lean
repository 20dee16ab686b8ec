import ApiImpact.TypeScript.Grammar.Types

/-!
Elements: markup inside expressions.
-/

namespace ApiImpact.TypeScript.Grammar

open Reading

/-- The length of the name of an element or attribute, which may hold dashes. -/
def elementNameLength (text : List Char) : Nat :=
  match text with
  | [] => 0
  | c :: rest =>
    if isIdentifierStart c then 1 + (rest.takeWhile fun d => isIdentifierPart d || d == '-').length
    else 0

/-- The name of an element or attribute, as a node of `kind`. -/
def elementWord (kind : Kind) : Reading Tree := do
  take (.node kind) (elementNameLength (← ahead))

/-- A name with a namespace. -/
def namespaced : Reading Tree :=
  node .jsxNamespaceName do
    return [← elementWord .identifier, ← sign ":", ← elementWord .identifier]

/-- The name of an element: with a namespace, an access or a single name. -/
def elementName : Reading Tree :=
  namespaced <|> do
    let start ← elementWord .identifier
    accessChain start (← ahead).length

/-- An expression in braces inside an element; it may be empty. -/
def elementExpression (parts : Parts) (bare : Bool) : Reading Tree :=
  node .jsxExpression do
    let opening ← sign "\x7b"
    let inner ← optionally (spread parts <|> parts (.expression true))
    check ((← ahead).head? == some '\x7d')
    let closing ← if bare then takeBare (.token "\x7d") 1 else take (.token "\x7d") 1
    return opening :: inner ++ [closing]

/-- The length of a quoted attribute value behind its opening quote. -/
def attributeTail? (quote : Char) : List Char → Option Nat
  | [] => none
  | c :: rest => if c = quote then some 1 else (attributeTail? quote rest).map (· + 1)

/-- The quoted value of an attribute, which knows no escapes. -/
def attributeString : Reading Tree := do
  match ← ahead with
  | quote :: rest =>
    check (quote == '"' || quote == '\'')
    match attributeTail? quote rest with
    | some length => take (.node .string) (length + 1)
    | none => failure
  | [] => failure

/-- One attribute, or attributes spread out of an object. -/
def elementAttribute (parts : Parts) : Reading Tree :=
  elementExpression parts false <|> node .jsxAttribute do
    let name ← namespaced <|> elementWord .propertyIdentifier
    let value ← optionalList do
      return [← sign "=", ← attributeString <|> elementExpression parts false <|> parts .jsx]
    return name :: value

/-- The closing bracket of a tag. Inside an element what follows is text, so it ends a bare token. -/
def tagEnd (bare : Bool) : Reading Tree := do
  check ((← ahead).head? == some '>')
  if bare then takeBare (.token ">") 1 else take (.token ">") 1

/-- A run of text inside an element. -/
def elementText : Reading Tree := do
  takeBare (.node .jsxText)
    ((← ahead).takeWhile fun c => c != '<' && c != '>' && c != '\x7b' && c != '\x7d').length

/-- The closing tag of an element. -/
def closingTag (bare : Bool) : Reading Tree :=
  node .jsxClosing do
    let opening ← signPart "<"
    let slash ← sign "/"
    let name ← optionally (inRole .name elementName)
    return [opening, slash] ++ name ++ [← tagEnd bare]

/-- What stands in an opening tag behind its bracket: nothing, or a name with type arguments and
attributes. -/
def tagHead (parts : Parts) : Reading (List Tree) := do
  match ← attempt (inRole .name elementName) with
  | none => return []
  | some name =>
    let types ← optionally (typeArguments parts)
    return name :: types ++ (← many do return [← elementAttribute parts])

/-- An element. With `bare` it stands inside another one, and what follows it is text again. A tag that
closes itself has a name. -/
def element (parts : Parts) (bare : Bool) : Nat → Reading Tree
  | 0 => failure
  | depth + 1 => do
    let opening ← signPart "<"
    let head ← tagHead parts
    match ← attempt (do check (!head.isEmpty); sign "/") with
    | some slash => return .branch .jsxSelfClosing (opening :: head ++ [slash, ← tagEnd bare])
    | none =>
      let openTag := Tree.branch .jsxOpening (opening :: head ++ [← tagEnd true])
      let children ← many do
        return [← elementText <|> elementExpression parts true <|> element parts true depth]
      return .branch .jsxElement (openTag :: children ++ [← closingTag bare])

/-- An element where an expression is expected. -/
def elementHere (parts : Parts) : Reading Tree := do
  element parts false (← ahead).length

end ApiImpact.TypeScript.Grammar
