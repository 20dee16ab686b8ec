import ApiImpact.Proofs.Script.Quiet
import ApiImpact.Proofs.TypeScript.Token
import ApiImpact.TypeScript.Surface

/-!
# Programs of exports

A program without types in which every line is a statement that exports something: functions, classes and
variables, a default, lists of names and stars. Values, parameters and members of classes are pieces of text
that the grammar for types and the patterns for scripts both understand. What a program exports and declares is
told by its statements alone.
-/

namespace ApiImpact.Program

open Text TypeScript Script

/-! ## Words -/

/-- The words that name nothing in a module, and the one that names no value of its own. -/
def notNames : List String :=
  Reading.reserved ++ ["implements", "interface", "let", "package", "private", "protected", "public", "static",
    "yield", "await", "undefined"]

/-- A letter of ASCII, `_` or `$` with letters, digits, `_` and `$` behind it. -/
def isWritten : List Char → Bool
  | [] => false
  | c :: rest => isAsciiIdentifierStart c && rest.all isNameChar

/-- A word that is not taken for the keyword `export`. -/
structure Word where
  chars : List Char
  written : isWritten chars = true
  ne_export : chars ≠ "export".toList
  no_suffix : ¬ "$export".toList <:+ chars

def Word.name (word : Word) : String := .ofList word.chars

/-- A word that can be declared. -/
structure Name extends Word where
  free : String.ofList chars ∉ notNames

/-- A name that does not look like the head of a function or class. -/
structure Reference extends Name where
  bare : ∀ head ∈ ["function", "class", "asyncfunction"], ¬ head.toList <+: chars

/-- The name of a module between quotation marks. -/
structure Specifier where
  mark : Char
  chars : List Char
  isMark : mark = '\'' ∨ mark = '"'
  plain : ∀ c ∈ chars, c ≠ mark ∧ c ≠ '\n' ∧ c ≠ '\\'
  first : ∀ c ∈ chars.head?, isQuotation c = false
  last : ∀ c ∈ chars.getLast?, isQuotation c = false

def Specifier.name (module : Specifier) : String := .ofList module.chars

/-! ## Pieces -/

/-- How deep the rules of the grammar nest in `text` at most. -/
def depthFor (text : List Char) : Nat := 8 * text.length + 40

/-- Lines of a program, or none. -/
def IsLines (text : List Char) : Prop := text = [] ∨ ∃ rest, text = "export ".toList ++ rest

/-- What may stand behind a value: the next variable, or the end of the line. -/
def EndsValue (rest : List Char) : Prop :=
  (∃ more, rest = ',' :: ' ' :: more) ∨ (∃ more, rest = ';' :: '\n' :: more) ∨ ∃ lines, rest = '\n' :: lines ∧ IsLines lines

/-- A piece of text behind the sign `opener`. Each of its characters has a shade, and its code holds as many
opening braces as closing ones and no word by which exports are found. -/
structure Piece (opener : Char) where
  chars : List Char
  shaded : List (Char × Shade)
  scan : ∀ rest, ∃ trail, shadesFrom .code (.close opener) (chars ++ rest) = shaded ++ shadesFrom .code trail rest
  balanced : braceDepth (hide (· != .code) shaded) = 0
  quiet : ∀ c, isNameChar c = false → c ≠ '.' → Quiet (hide (· != .code) shaded ++ [c])

/-- The code of the piece. -/
def Piece.code {opener : Char} (piece : Piece opener) : List Char := hide (· != .code) piece.shaded

/-- What a variable declares that has the value `tree`. -/
def valueKind (tree : Tree) : SymbolKind :=
  if isFunctionValue tree then .function else if tree.is .classExpression then .classType else .binding

/-- What a variable declares that has the value at `value`, by the look of the code there. -/
def seenKind (s : Source) (value : Nat) : Except InsideCharacter SymbolKind := do
  match ← s.valueShapeAt value with
  | .function => return if (← s.anyFunctionAt? value).isSome then .function else .binding
  | .classType => return .classType
  | .object | .other => return .binding

/-- A value in one line. It has one kind by the grammar, and one by its look to a script. -/
structure Value extends Piece '=' where
  kind : SymbolKind
  look : SymbolKind
  line : '\n' ∉ chars
  starts : ∀ rest, StartsToken (chars ++ rest)
  visible : ∃ c rest, hide (· != .code) shaded = c :: rest ∧ isBlank c = false
  read : ∀ depth, depthFor chars ≤ depth → ∀ rest, EndsValue rest → ∀ offset, ∃ tree, valueKind tree = kind ∧
    Reads (Grammar.parts depth (.assignment true)) ⟨chars ++ rest, offset, false⟩ tree
      (.behind rest (offset + byteLength chars))
  seen : ∀ (s : Source) before rest, s.code = before ++ (hide (· != .code) shaded ++ rest) → EndsValue rest →
    seenKind s (byteLength before) = .ok look

/-- The parameters of a function in one line, without their parentheses. -/
structure Parameters extends Piece '(' where
  line : '\n' ∉ chars
  closed : ∀ start rest, closeFrom '(' ')' 1 start (hide (· != .code) shaded ++ ')' :: rest) =
    some (start + byteLength (hide (· != .code) shaded))
  read : ∀ depth, depthFor chars ≤ depth → ∀ rest offset, ∃ tree,
    Reads (Grammar.formalParameters (Grammar.parts depth)) ⟨'(' :: (chars ++ ')' :: rest), offset, false⟩ tree
      (.behind rest (offset + byteLength chars + 2))

/-- The members of a class, without the braces around them. -/
structure Members extends Piece '\x7b' where
  nested : ∀ front back, hide (· != .code) shaded = front ++ back → 0 ≤ braceDepth front
  read : ∀ depth, depthFor chars ≤ depth → ∀ rest offset, ∃ tree,
    Reads (Grammar.classBody (Grammar.parts depth)) ⟨'\x7b' :: (chars ++ '\x7d' :: rest), offset, false⟩ tree
      (.behind rest (offset + byteLength chars + 2))

/-! ## Statements -/

/-- The word before variables. -/
inductive Keyword where
  | constWord
  | letWord
  | varWord
  deriving DecidableEq, Repr

def Keyword.word : Keyword → String
  | constWord => "const"
  | letWord => "let"
  | varWord => "var"

/-- One variable with its value. -/
structure Declarator where
  name : Name
  value : Value

/-- A name in a list, perhaps made known under another one. -/
structure Entry where
  name : Word
  renamed : Option Word := none

/-- The name under which the entry is made known. -/
def Entry.publicName (entry : Entry) : Word := entry.renamed.getD entry.name

def Entry.chars (entry : Entry) : List Char :=
  entry.name.chars ++ entry.renamed.elim [] fun word => " as ".toList ++ word.chars

/-- A statement, which is a line of its own. -/
inductive Statement where
  /-- `export [default] [async] function n(params) {}` -/
  | function (isDefault isAsync : Bool) (name : Name) (params : Parameters)
  /-- `export [default] class N {members}` -/
  | classType (isDefault : Bool) (name : Name) (members : Members)
  /-- `export const n = value, ...` -/
  | bindings (keyword : Keyword) (first : Declarator) (more : List Declarator) (semicolon : Bool)
  /-- `export default n` -/
  | defaultName (name : Reference) (semicolon : Bool)
  /-- `export { a as b, ... }`, perhaps `from 'm'` -/
  | names (entries : List Entry) (module : Option Specifier) (semicolon : Bool)
  /-- `export * from 'm'`, perhaps `as n` -/
  | star (renamed : Option Word) (module : Specifier) (semicolon : Bool)

/-- `text` as code. -/
def plain (text : List Char) : List (Char × Shade) := text.map (·, .code)

/-- The literal as it is written. -/
def Specifier.quoted (module : Specifier) : List Char :=
  module.mark :: (module.chars ++ [module.mark])

/-- The literal with its marks. -/
def Specifier.shaded (module : Specifier) : List (Char × Shade) :=
  (module.mark, .code) :: (module.chars.map (·, .literal) ++ [(module.mark, .code)])

def Declarator.shaded (declarator : Declarator) : List (Char × Shade) :=
  plain (declarator.name.chars ++ " = ".toList) ++ declarator.value.shaded

/-- The declarator as it is written. -/
def Declarator.chars (declarator : Declarator) : List Char :=
  declarator.name.chars ++ (" = ".toList ++ declarator.value.chars)

/-- What the declarator declares. -/
def Declarator.entry (declarator : Declarator) : SymbolKind × String :=
  (declarator.value.kind, declarator.name.name)

/-- What the declarator declares by its look. -/
def Declarator.seenEntry (declarator : Declarator) : SymbolKind × String :=
  (declarator.value.look, declarator.name.name)

/-- The words before a declaration. -/
def exportWords (isDefault : Bool) : List Char :=
  "export ".toList ++ if isDefault then "default ".toList else []

/-- The word `async` before a function. -/
def asyncWord (isAsync : Bool) : List Char :=
  if isAsync then "async ".toList else []

/-- A list of names between its braces. -/
def listChars (entries : List Entry) : List Char :=
  "\x7b ".toList ++ (", ".toList.intercalate (entries.map Entry.chars) ++ " \x7d".toList)

/-- The name that everything of a module gets, if it gets one. -/
def asChars (renamed : Option Word) : List Char :=
  renamed.elim [] fun word => "as ".toList ++ (word.chars ++ [' '])

/-- The end of a line. -/
def lineEnd (semicolon : Bool) : List Char :=
  (if semicolon then [';'] else []) ++ ['\n']

theorem map_fst_plain (text : List Char) : (plain text).map Prod.fst = text := by
  simp [plain, Function.comp_def]

theorem Piece.map_fst_shaded {opener : Char} (piece : Piece opener) : piece.shaded.map Prod.fst = piece.chars := by
  obtain ⟨trail, hscan⟩ := piece.scan []
  have hchars := congrArg (List.map Prod.fst) hscan
  rw [map_fst_shadesFrom, List.map_append, map_fst_shadesFrom, List.append_nil, List.append_nil] at hchars
  exact hchars.symm

theorem Specifier.map_fst_shaded (module : Specifier) : module.shaded.map Prod.fst = module.quoted := by
  simp [Specifier.shaded, Specifier.quoted, Function.comp_def]

theorem Declarator.map_fst_shaded (declarator : Declarator) : declarator.shaded.map Prod.fst = declarator.chars := by
  simp [Declarator.shaded, Declarator.chars, map_fst_plain, declarator.value.map_fst_shaded]

namespace Statement

/-- The statement as it is written, with its shades. -/
def shaded : Statement → List (Char × Shade)
  | function isDefault isAsync name params =>
    plain (exportWords isDefault ++ (asyncWord isAsync ++ ("function ".toList ++ (name.chars ++ ['(']))))
      ++ (params.shaded ++ plain ") \x7b\x7d\n".toList)
  | classType isDefault name members =>
    plain (exportWords isDefault ++ ("class ".toList ++ (name.chars ++ " \x7b".toList)))
      ++ (members.shaded ++ plain "\x7d\n".toList)
  | bindings keyword first more semicolon =>
    plain ("export ".toList ++ (keyword.word.toList ++ [' '])) ++ (first.shaded
      ++ (more.flatMap (fun declarator => plain ", ".toList ++ declarator.shaded) ++ plain (lineEnd semicolon)))
  | defaultName name semicolon => plain ("export default ".toList ++ (name.chars ++ lineEnd semicolon))
  | names entries module semicolon =>
    plain ("export ".toList ++ listChars entries)
      ++ (module.elim [] (fun module => plain " from ".toList ++ module.shaded) ++ plain (lineEnd semicolon))
  | star renamed module semicolon =>
    plain ("export * ".toList ++ (asChars renamed ++ "from ".toList))
      ++ (module.shaded ++ plain (lineEnd semicolon))

/-- The statement as text. -/
def chars (s : Statement) : List Char := s.shaded.map Prod.fst

/-- The code of the statement. -/
def code (s : Statement) : List Char := hide (· != .code) s.shaded

/-! ## What statements mean -/

/-- The declarations of the statement, by kind and name. -/
def declared : Statement → List (SymbolKind × String)
  | function _ _ name _ => [(.function, name.name)]
  | classType _ name _ => [(.classType, name.name)]
  | bindings _ first more _ => (first :: more).map Declarator.entry
  | defaultName .. | names .. | star .. => []

/-- The key of what is made known under `name`. -/
def publicKey (name : String) (module : Option String) : ExportKey :=
  if name = "default" then ⟨.default, name, module⟩ else ⟨.named, name, module⟩

/-- The keys of what the statement exports. -/
def keys : Statement → List ExportKey
  | function isDefault _ name _ | classType isDefault name _ =>
    [if isDefault then ⟨.default, "default", none⟩ else ⟨.named, name.name, none⟩]
  | bindings _ first more _ => (first :: more).map fun declarator => ⟨.named, declarator.name.name, none⟩
  | defaultName .. => [⟨.default, "default", none⟩]
  | names entries module _ => entries.map fun entry => publicKey entry.publicName.name (module.map Specifier.name)
  | star renamed module _ => [⟨.named, renamed.elim "*" Word.name, some module.name⟩]

/-- The keys that a script finds in the statement: of several variables that of the first one. -/
def seenKeys : Statement → List ExportKey
  | bindings _ first _ _ => [⟨.named, first.name.name, none⟩]
  | s => s.keys

/-- The declarations that a script finds in the statement: of several variables the first one. -/
def seenDeclared : Statement → List (SymbolKind × String)
  | bindings _ first _ _ => [first.seenEntry]
  | s => s.declared

end Statement

end ApiImpact.Program
