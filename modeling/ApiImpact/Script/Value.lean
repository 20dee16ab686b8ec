import ApiImpact.Script.Source
import ApiImpact.Surface.Snapshot
import ApiImpact.Surface.Symbol
import ApiImpact.Text.Bracket
import ApiImpact.Text.Pattern

/-!
Parameter lists without types.
-/

namespace ApiImpact.Script

open Text

/-- How `c` moves the depth of round, curly and square brackets. -/
def bracketStep (c : Char) : Int :=
  if c = '(' ∨ c = '\x7b' ∨ c = '[' then 1 else if c = ')' ∨ c = '\x7d' ∨ c = ']' then -1 else 0

/-- A `=` between these neighbours is part of no longer sign. -/
def isAssignment (previous : Option Char) (rest : List Char) : Bool :=
  !(rest.head?.any fun c => c == '>' || c == '=')
    && !(previous.any fun c => c == '=' || c == '!' || c == '<' || c == '>')

/-- What stands before the first assignment sign outside all brackets; `none` when there is none. -/
def beforeAssignment? (depth : Int) (previous : Option Char) : List Char → Option (List Char)
  | [] => none
  | c :: rest =>
    if c = '=' ∧ depth = 0 ∧ isAssignment previous rest then some []
    else (beforeAssignment? (depth + bracketStep c) (some c) rest).map (c :: ·)

/-- The parameter that one piece of a list writes. -/
def parameterOf (piece : List Char) : Parameter :=
  let piece := trim piece
  let body := dropLeadingCopies "...".toList piece
  let name := beforeAssignment? 0 none body
  { name := .ofList (collapse (trim (name.getD body)))
    hasDefault := name.isSome
    rest := "...".toList.isPrefixOf piece }

/-- The parameters of a list, given without its parentheses. -/
def parametersOf (list : List Char) : List Parameter :=
  (splitTopLevel list).map fun (_, piece) => parameterOf piece

end ApiImpact.Script

/-!
Reading the values that a script binds and exports: functions, classes and object literals, told by
how they begin.
-/

namespace ApiImpact.Script

open Text Text.Pattern

/-- What a value looks like. -/
inductive ValueShape where
  | function
  | classType
  | object
  | other
  deriving DecidableEq, Repr

/-- The words before a parenthesis that begin no method. -/
def notMethods : List String :=
  ["if", "for", "while", "switch", "catch", "function", "return", "with", "constructor"]

/-- The words that begin no field. -/
def notFields : List String := ["static", "get", "set", "async"]

/-- A blank inside a line. -/
def isGap (c : Char) : Bool := c == ' ' || c == '\t'

/-- A character after the first one of a name. -/
def isNameChar (c : Char) : Bool := isWordChar c || c == '$'

/-- The name of a class member, hash sign included. -/
def memberName : Pattern :=
  one (fun c => isAsciiIdentifierStart c || c == '#') ++ most isNameChar

/-- A word with blanks after it, if it is there. -/
def modifier (word : Pattern) : Pattern := optional (word ++ most1 isGap)

/-- The head of a method at the beginning of a line, with its name as group 1. -/
def methodPattern : Pattern :=
  lineStart ++ most isGap ++ modifier (literal "static") ++ modifier (literal "async")
    ++ optional (char '*' ++ most isGap) ++ modifier (firstOf [literal "get", literal "set"])
    ++ group 1 memberName ++ most isGap ++ char '('

/-- A field at the beginning of a line, with its name as group 1. -/
def fieldPattern : Pattern :=
  lineStart ++ most isGap ++ modifier (literal "static") ++ group 1 memberName ++ most isGap
    ++ firstOf [char '=' ++ one (fun c => c != '=' && c != '>'), char ';', lineEnd]

/-- A character that may stand between the beginning of a function and its parameters. -/
def isFunctionHead (c : Char) : Bool :=
  isAlphanumeric c || isBlank c || c == '_' || c == '$' || c == '*'

/-- A sign behind which the head of a function begins. -/
def endsHead (c : Char) : Bool := c == '\n' || c == ';' || c == '=' || c == '('

/-- The members that `pattern` finds in the body of a class outside nested braces, with the offset of
their end. Private members are left out. -/
def publicMembers (pattern : Pattern) (body : List Char) : List (String × Nat) :=
  (pattern.findAll body).filterMap fun m => do
    let span ← m.group? 1
    let name ← slice? body span.start span.stop
    if (depthAt? 0 body span.start).getD 1 ≠ 0 ∨ name.head? = some '#' then none
    else some (.ofList name, span.stop)

/-- `names` without repetitions, each at its first place. -/
def distinct (names : List String) : List String :=
  names.foldl (fun seen name => if seen.contains name then seen else seen ++ [name]) []

namespace Source

/-- A symbol that begins at `start`. -/
def symbolAt (s : Source) (name : String) (kind : SymbolKind) (start : Nat) (signature : String)
    (shape : Shape) : Symbol :=
  { name, qualifiedName := name, kind, line := s.lineOf start
    column := s.columnOf start, signature, shape }

/-- The function whose parameter list is the first one at or after `start`, with the offset behind the
list. Only a name and the words and signs of a function head may stand before the list. -/
def functionAt? (s : Source) (start : Nat) :
    Except InsideCharacter (Option (FunctionShape × Nat)) := do
  let rest ← s.codeFrom start
  let head := rest.takeWhile (· != '(')
  if head.length = rest.length ∨ !head.all isFunctionHead then return none
  let opening := start + byteLength head
  match matchingClose? s.code opening with
  | none => return none
  | some closing =>
    let list ← s.codeBetween (opening + 1) closing
    let before ← s.codeBetween 0 opening
    let statement := (before.reverse.takeWhile (!endsHead ·)).reverse
    return some
      ({ params := parametersOf list, isAsync := (words statement).contains "async".toList },
        closing + 1)

/-- The function of one parameter without parentheses at `start`, with the offset of its arrow. -/
def bareArrowAt? (s : Source) (start : Nat) :
    Except InsideCharacter (Option (FunctionShape × Nat)) := do
  let isAsync ← s.hasAt start "async"
  let name ← if isAsync then s.skipBlanks (start + "async".length) else pure start
  match ← s.identifierAt? name with
  | none => return none
  | some param =>
    let arrow ← s.skipBlanks (name + byteLength param)
    if ← s.hasAt arrow "=>" then
      return some ({ params := [{ name := .ofList param }], isAsync := name != start }, arrow)
    else return none

/-- The function at `start`, with or without parentheses around its parameters. -/
def anyFunctionAt? (s : Source) (start : Nat) :
    Except InsideCharacter (Option (FunctionShape × Nat)) := do
  match ← s.functionAt? start with
  | some found => return some found
  | none => s.bareArrowAt? start

/-- The code behind a leading `async`. -/
def skipAsync (code : List Char) : List Char :=
  match dropPrefix? "async".toList code with
  | some rest => trimStart rest
  | none => code

/-- What the value at `start` looks like. -/
def valueShapeAt (s : Source) (start : Nat) : Except InsideCharacter ValueShape := do
  let rest ← s.codeFrom start
  let value := skipAsync rest
  if "function".toList.isPrefixOf value then return .function
  if "class".toList.isPrefixOf rest && !(rest[5]?.any fun c => isAlphanumeric c || c == '_') then
    return .classType
  if rest.head? = some '\x7b' then return .object
  if value.head? = some '(' then
    match matchingClose? s.code (start + (byteLength rest - byteLength value)) with
    | none => return .other
    | some closing =>
      return if ← s.hasAt (← s.skipBlanks (closing + 1)) "=>" then .function else .other
  return if (← s.bareArrowAt? start).isSome then .function else .other

/-- The members of the class whose body, between the offsets of its braces, is given. -/
def classShape (s : Source) (opening closing : Nat) : Except InsideCharacter ClassShape := do
  let body ← s.codeBetween (opening + 1) closing
  let members := publicMembers methodPattern body
  let constructor ← members.foldlM (fun found (name, stop) => do
    if found.isNone ∧ name = "constructor" then
      return (← s.functionAt? (opening + 1 + stop)).map (·.1.params)
    else return found) none
  return {
    methods := distinct ((members.map (·.1)).filter (!notMethods.contains ·))
    constructor
    properties :=
      distinct (((publicMembers fieldPattern body).map (·.1)).filter (!notFields.contains ·)) }

/-- The class named `name` that is declared at `start` and whose body opens at or after `head`. -/
def classAt (s : Source) (start : Nat) (name : String) (head : Nat) :
    Except InsideCharacter Local := do
  let rest ← s.codeFrom head
  let body := (findOffset? (· == '\x7b') rest).bind fun width =>
    (matchingClose? s.code (head + width)).map fun closing => (head + width, closing)
  let shape ← match body with
    | some (opening, closing) => s.classShape opening closing
    | none => pure {}
  let stop := match body with
    | some (opening, _) => opening
    | none => byteLength s.text
  return ⟨s.symbolAt name .classType start (s.signature start stop) (.classType shape), .classType⟩

/-- The function named `name` that is declared at `start` and whose head ends at `stop`. -/
def functionLocal (s : Source) (start : Nat) (name : String) (shape : FunctionShape) (stop : Nat) :
    Local :=
  ⟨s.symbolAt name .function start (s.signature start stop) (.function shape), .function⟩

/-- The variable named `name` that is declared at `start`. -/
def variableLocal (s : Source) (start : Nat) (name signature : String) (kind : ExportKind) : Local :=
  ⟨s.symbolAt name .binding start signature (.binding none), kind⟩

/-- The binding of `name` at `start` by `keyword`, told by the shape of its value. -/
def bindingAt (s : Source) (start : Nat) (name : String) (afterName : Nat) (keyword : String) :
    Except InsideCharacter Local := do
  let sign ← s.skipBlanks afterName
  let hasValue := (← s.hasAt sign "=") && !(← s.hasAt sign "==")
  let value ← s.skipBlanks (sign + 1)
  let short := s!"{keyword} {name}"
  if !hasValue then
    let width := findOffset? (fun c => c == ';' || c == '\n') (← s.codeFrom start)
    let stop := width.elim (byteLength s.text) (start + ·)
    return s.variableLocal start name (s.signature start stop) .binding
  match ← s.valueShapeAt value with
  | .function =>
    match ← s.anyFunctionAt? value with
    | some (shape, stop) => return s.functionLocal start name shape stop
    | none => return s.variableLocal start name short .binding
  | .classType =>
    let found ← s.classAt value name (value + "class".length)
    return { found with symbol := { found.symbol with
      line := s.lineOf start, column := s.columnOf start } }
  | .object => return s.variableLocal start name short .object
  | .other => return s.variableLocal start name short .binding

end Source

end ApiImpact.Script
