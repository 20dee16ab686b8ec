import ApiImpact.TypeScript.Reading

/-!
Names of members, modifiers, templates and binding patterns.
-/

namespace ApiImpact.TypeScript.Grammar

open Reading

/-- The name of a property: any word, a string, a number, a private name or a computed name. -/
def propertyName (parts : Parts) : Reading Tree :=
  anyWord .propertyIdentifier <|> string <|> number <|> privateName
    <|> node .computedPropertyName
      (between "[" (return [← parts (.assignment true)]) "]")

/-- What stands ahead can be the name of a member, so a word before it is a modifier. -/
def memberNameAhead : Reading Bool := do
  match ← ahead with
  | [] => return false
  | c :: _ =>
    return isIdentifierStart c || c == '\\' || c == '#' || c == '[' || c == '"' || c == '\''
      || c.isDigit || c == '*'

/-- The word `text` as a modifier of a member. -/
def memberModifier (text : String) : Reading Tree := do
  let label : Label := match text with
    | "public" | "private" | "protected" => .node .accessibilityModifier
    | "override" => .node .overrideModifier
    | _ => .token text
  check ((← peekWord) == text)
  let modifier ← take label text.length
  check (← memberNameAhead)
  return modifier

/-- The modifiers of a member, in any order. -/
def memberModifiers (texts : List String) : Reading (List Tree) :=
  many do
    let text ← peekWord
    check (texts.contains text)
    return [← memberModifier text]

/-- The number of characters of a template up to its end or its next substitution. -/
def templateRun : List Char → Nat
  | [] => 0
  | '\\' :: _ :: rest => 2 + templateRun rest
  | '$' :: '\x7b' :: _ => 0
  | c :: rest => if c = '\x60' then 0 else 1 + templateRun rest

/-- One piece of a template: a run of text, or a substitution that holds what `inner` reads. -/
def templatePiece (inner : Reading Tree) : Reading (List Tree) := do
  let text ← ahead
  let run := templateRun text
  if run ≠ 0 then return [← takeBare (.token "text") run]
  else
    check ("$\x7b".toList.isPrefixOf text)
    let opening ← take (.token "$\x7b") 2
    let value ← inner
    check ((← ahead).head? == some '\x7d')
    return [.branch .templateSubstitution [opening, value, ← takeBare (.token "\x7d") 1]]

/-- A template of `kind` whose substitutions hold what `inner` reads. -/
def template (kind : Kind) (inner : Reading Tree) : Reading Tree := do
  check ((← ahead).head? == some '\x60')
  let opening ← takeBare (.token "\x60") 1
  let pieces ← many (templatePiece inner)
  check ((← ahead).head? == some '\x60')
  return .branch kind (opening :: pieces ++ [← take (.token "\x60") 1])

/-- An expression in parentheses. -/
def parenthesized (parts : Parts) : Reading Tree :=
  node .parenthesized (between "(" (return [← parts (.expression true)]) ")")

/-- All items of a list, spread out. -/
def spread (parts : Parts) : Reading Tree := do
  return .branch .spread [← sign "...", ← parts (.assignment true)]

/-- The arguments of a call in parentheses. -/
def arguments (parts : Parts) : Reading Tree :=
  node .arguments (between "(" (commaList (spread parts <|> parts (.assignment true))) ")")

/-- An initial value. -/
def initializer (parts : Parts) (allowIn : Bool) : Reading (List Tree) := do
  return [← sign "=", (← parts (.assignment allowIn)).as .value]

/-- A pattern, perhaps with a default. -/
def patternWithDefault (parts : Parts) : Reading Tree := do
  let left ← parts .pattern
  match ← attempt (sign "=") with
  | none => return left
  | some equals =>
    let right ← parts (.assignment true)
    return .branch .assignmentPattern [left.as .left, equals, right.as .right]

/-- The rest of what a pattern takes apart. -/
def restPattern (parts : Parts) : Reading Tree := do
  return .branch .restPattern [← sign "...", ← parts .pattern]

/-- A property of an object pattern: a key with a pattern for its value. -/
def pairPattern (parts : Parts) : Reading Tree := do
  let key ← propertyName parts
  let colon ← sign ":"
  return .branch .pairPattern [key, colon, (← patternWithDefault parts).as .value]

/-- A property of an object pattern that binds its own name. -/
def shorthandPattern (parts : Parts) : Reading Tree := do
  let name ← nameAs .shorthandPropertyPattern
  match ← attempt (sign "=") with
  | none => return name
  | some equals =>
    return .branch .objectAssignmentPattern
      [name.as .left, equals, (← parts (.assignment true)).as .right]

/-- A pattern that takes an object apart. -/
def objectPattern (parts : Parts) : Reading Tree :=
  node .objectPattern (between "\x7b"
    (commaList (restPattern parts <|> pairPattern parts <|> shorthandPattern parts)) "\x7d")

/-- A pattern that takes an array apart. Elements may be left out. -/
def arrayPattern (parts : Parts) : Reading Tree :=
  node .arrayPattern (between "["
    (many (return [← restPattern parts <|> patternWithDefault parts <|> sign ","])) "]")

/-- What a binding binds: a name, or the parts of an object or array. -/
def pattern (parts : Parts) : Reading Tree :=
  identifier <|> objectPattern parts <|> arrayPattern parts

end ApiImpact.TypeScript.Grammar
