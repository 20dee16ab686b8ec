import ApiImpact.TypeScript.Lexeme
import ApiImpact.TypeScript.Tree

/-!
Reading syntax trees from text: a cursor that stands at a token, and readers that move it. A reader
that fails leaves its alternative where it began itself; only how far any reader came is remembered.
-/

namespace ApiImpact.TypeScript

/-- A place at the beginning of a token. -/
structure Cursor where
  ahead : List Char
  /-- The byte offset of the token. -/
  offset : Nat
  /-- A line breaks between the token before and this one. -/
  afterBreak : Bool := false
  /-- An angle bracket where an expression begins opens an element, not a type. -/
  elements : Bool
  /-- The furthest offset at which a reader has failed. -/
  furthest : Nat := 0
  deriving Inhabited

namespace Cursor

/-- The cursor `length` characters further. -/
def advance (cursor : Cursor) : Nat → Cursor
  | 0 => cursor
  | length + 1 =>
    match cursor.ahead with
    | [] => cursor
    | c :: rest =>
      advance { cursor with ahead := rest, offset := cursor.offset + c.utf8Size } length

/-- The cursor behind the white space and comments ahead. -/
def skipTrivia (cursor : Cursor) : Cursor :=
  let (length, breaks) := triviaRun (cursor.ahead.length + 1) cursor.ahead
  { cursor.advance length with afterBreak := breaks }

/-- The cursor at the first token of `text`. -/
def start (text : List Char) (elements : Bool) : Cursor :=
  skipTrivia { ahead := text, offset := 0, elements }

end Cursor

/-- The cursor `start` again, after a reader that began there got stuck. -/
def Cursor.backFrom (stuck start : Cursor) : Cursor :=
  { start with furthest := max start.furthest (max stuck.furthest stuck.offset) }

/-- A reader: what it reads and where it stops, or where it gets stuck. -/
def Reading (α : Type) : Type := EStateM Unit Cursor α

namespace Reading

instance : Monad Reading := inferInstanceAs (Monad (EStateM Unit Cursor))

instance : LawfulMonad Reading := inferInstanceAs (LawfulMonad (EStateM Unit Cursor))

instance : MonadStateOf Cursor Reading := inferInstanceAs (MonadStateOf Cursor (EStateM Unit Cursor))

/-- Gets stuck. -/
def fail : Reading α := fun cursor => .error () cursor

/-- What `first` reads, or if it gets stuck what `second` reads from the same place on. -/
def orElse (first : Reading α) (second : Unit → Reading α) : Reading α := fun cursor =>
  match first cursor with
  | .ok result after => .ok result after
  | .error _ stuck => second () (stuck.backFrom cursor)

instance : Alternative Reading where
  failure := fail
  orElse := orElse

end Reading

/-- What is read as a part of something larger. -/
inductive Goal where
  | statement
  | block
  | expression (allowIn : Bool)
  | assignment (allowIn : Bool)
  | consequent
  | unary
  | access
  | pattern
  | type
  | typeWithoutCondition
  | typeOperator
  | jsx
  deriving DecidableEq, Repr

/-- The reader of every goal, on which the readers of larger constructs rest. -/
abbrev Parts := Goal → Reading Tree

namespace Reading

/-- The text ahead. -/
def ahead : Reading (List Char) := return (← get).ahead

/-- Succeeds if `condition` holds. -/
def check (condition : Bool) : Reading Unit := if condition then pure () else failure

/-- An angle bracket where an expression begins opens an element. -/
def elements : Reading Bool := return (← get).elements

/-- A line breaks before the next token. -/
def afterBreak : Reading Bool := return (← get).afterBreak

/-- Takes `length` characters as one token, and what follows it up to the next token. -/
def take (label : Label) (length : Nat) : Reading Tree := do
  check (length != 0)
  let cursor ← get
  let after := cursor.advance length
  set after.skipTrivia
  return .mk label none cursor.offset after.offset []

/-- Takes `length` characters as one token and stops right behind it. -/
def takeBare (label : Label) (length : Nat) : Reading Tree := do
  check (length != 0)
  let cursor ← get
  let after := cursor.advance length
  set { after with afterBreak := false }
  return .mk label none cursor.offset after.offset []

/-- The reader's result if it succeeds; else nothing is read. -/
def attempt (reader : Reading α) : Reading (Option α) :=
  (some <$> reader) <|> pure none

/-- What `reader` reads, as a list, or nothing. -/
def optionally (reader : Reading Tree) : Reading (List Tree) :=
  return (← attempt reader).toList

/-- What `reader` reads, or nothing. -/
def optionalList (reader : Reading (List Tree)) : Reading (List Tree) :=
  return (← attempt reader).getD []

/-- Runs of `reader`, at most `limit`, as long as it succeeds. -/
def upTo : Nat → Reading (List Tree) → Reading (List Tree)
  | 0, _ => pure []
  | limit + 1, reader => do
    match ← attempt reader with
    | none => return []
    | some trees => return trees ++ (← upTo limit reader)

/-- As many runs of `reader` as succeed. -/
def many (reader : Reading (List Tree)) : Reading (List Tree) := do
  upTo ((← ahead).length + 1) reader

/-- The word ahead, empty if there is none. -/
def peekWord : Reading String := do
  let text ← ahead
  return .ofList (text.take (wordLength text))

/-- The sign ahead, empty if there is none. -/
def peekSign : Reading String :=
  return .ofList (signAt (← ahead))

/-- The sign `text`, which is not the beginning of a longer one. -/
def sign (text : String) : Reading Tree := do
  check ((← peekSign) == text)
  take (.token text) text.length

/-- The sign `text`, also as the beginning of a longer one. -/
def signPart (text : String) : Reading Tree := do
  check (text.toList.isPrefixOf (← ahead))
  take (.token text) text.length

/-- One of the signs. -/
def signOf (texts : List String) : Reading Tree := do
  let text ← peekSign
  check (texts.contains text)
  take (.token text) text.length

/-- The word `text`. -/
def word (text : String) : Reading Tree := do
  check ((← peekWord) == text)
  take (.token text) text.length

/-- One of the words. -/
def wordOf (texts : List String) : Reading Tree := do
  let text ← peekWord
  check (texts.contains text)
  take (.token text) text.length

/-- Any word, as a node of `kind`. -/
def anyWord (kind : Kind) : Reading Tree := do
  take (.node kind) (wordLength (← ahead))

/-- The words that name nothing. -/
def reserved : List String :=
  ["break", "case", "catch", "class", "const", "continue", "debugger", "default", "delete", "do",
    "else", "enum", "export", "extends", "false", "finally", "for", "function", "if", "import", "in",
    "instanceof", "new", "null", "return", "super", "switch", "this", "throw", "true", "try",
    "typeof", "var", "void", "while", "with"]

/-- A name, as a node of `kind`. -/
def nameAs (kind : Kind) : Reading Tree := do
  check (!reserved.contains (← peekWord))
  anyWord kind

/-- An identifier; `undefined` is a node of its own. -/
def identifier : Reading Tree := do
  nameAs (if (← peekWord) == "undefined" then .undefined else .identifier)

/-- A string literal. -/
def string : Reading Tree := do
  match stringLength? (← ahead) with
  | some length => take (.node .string) length
  | none => failure

/-- A number. -/
def number : Reading Tree := do
  match numberLength? (← ahead) with
  | some length => take (.node .number) length
  | none => failure

/-- A private name with its hash sign. -/
def privateName : Reading Tree := do
  match ← ahead with
  | '#' :: rest =>
    let length := wordLength rest
    check (length != 0)
    take (.node .privatePropertyIdentifier) (length + 1)
  | _ => failure

/-- Items that `reader` reads between commas, perhaps with a comma at the end. -/
def commaList (reader : Reading Tree) : Reading (List Tree) := do
  match ← attempt reader with
  | none => return []
  | some first =>
    let more ← many do return [← sign ",", ← reader]
    return first :: more ++ (← optionally (sign ","))

/-- At least one item that `reader` reads, with commas between. -/
def commaList1 (reader : Reading Tree) : Reading (List Tree) := do
  let first ← reader
  return first :: (← many do return [← sign ",", ← reader])

/-- What `reader` reads between the signs `opening` and `closing`. -/
def between (opening : String) (reader : Reading (List Tree)) (closing : String) :
    Reading (List Tree) := do
  let first ← sign opening
  let inner ← reader
  return first :: inner ++ [← sign closing]

/-- The node of `kind` made of what `reader` reads. -/
def node (kind : Kind) (reader : Reading (List Tree)) : Reading Tree :=
  return .branch kind (← reader)

/-- What `reader` reads in the role `role`. -/
def inRole (role : Role) (reader : Reading Tree) : Reading Tree :=
  return (← reader).as role

/-- The end of a statement: a semicolon, or a place where one may be left out. -/
def statementEnd : Reading (List Tree) := do
  match ← attempt (sign ";") with
  | some semicolon => return [semicolon]
  | none =>
    let text ← ahead
    check (text.isEmpty || text.head? == some '\x7d' || (← afterBreak))
    return []

end Reading

end ApiImpact.TypeScript
