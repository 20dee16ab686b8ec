import ApiImpact.ModuleReference.Extraction

/-!
# Statements that refer to modules

The forms in which a script imports, re-exports and requires modules, with all the blanks that may stand
between their words. A statement is written as text and stands for one reference.
-/

namespace ApiImpact.ModuleReference

open Text

/-! ## Words and blanks -/

/-- The blanks of ASCII. -/
def plainBlanks : List Char := [' ', '\t', '\n', '\x0b', '\x0c', '\r']

/-- Blanks, perhaps none. -/
structure Spacing where
  chars : List Char
  blank : ∀ c ∈ chars, c ∈ plainBlanks

/-- At least one blank. -/
structure Gap extends Spacing where
  ne_nil : chars ≠ []

/-- A letter, a digit or `_`. -/
def isPlainChar (c : Char) : Bool := c.isAlphanum || c == '_'

/-- `chars` begins with a letter or `_` and goes on with letters, digits and `_`. -/
def isPlainName : List Char → Bool
  | [] => false
  | c :: rest => (c.isAlpha || c == '_') && rest.all isPlainChar

/-- A name. Words that are reserved in scripts do no harm, but for the two that begin statements; `type`
would be taken for a modifier. -/
structure Name where
  chars : List Char
  plain : isPlainName chars = true
  free : chars ∉ ["import".toList, "export".toList, "type".toList]

/-- The entries of a list in braces. The place behind the last comma may be left blank. -/
structure Listing (α : Type) where
  entries : List α
  blankPlace : Option Spacing

namespace Listing

variable {α : Type} (write : α → List Char) (list : Listing α)

/-- The text between the braces, with `write` for one entry. -/
def inner : List Char :=
  [','].intercalate (list.entries.map write ++ list.blankPlace.toList.map (·.chars))

def chars : List Char :=
  '\x7b' :: (list.inner write ++ ['\x7d'])

end Listing

/-! ## Clauses -/

/-- One entry of an import or re-export: `a`, `a as b`, perhaps after an inline `type`. -/
structure NameEntry where
  before : Spacing
  typeOnly : Bool
  name : Name
  /-- The local name, between it and `as` the blanks on both sides. -/
  renamed : Option (Gap × Gap × Name)
  after : Spacing

namespace NameEntry

/-- The name that the entry makes known. -/
def localName (entry : NameEntry) : Name :=
  entry.renamed.elim entry.name fun (_, _, localName) => localName

/-- The entry from its first name on. -/
def named (entry : NameEntry) : List Char :=
  entry.name.chars ++ entry.renamed.elim [] fun (beforeAs, afterAs, localName) =>
    beforeAs.chars ++ ("as".toList ++ (afterAs.chars ++ localName.chars))

/-- The entry without the blanks around it. -/
def core (entry : NameEntry) : List Char :=
  (if entry.typeOnly then "type ".toList else []) ++ entry.named

def chars (entry : NameEntry) : List Char :=
  entry.before.chars ++ (entry.core ++ entry.after.chars)

def bound (entry : NameEntry) : ImportedName :=
  ModuleReference.bound entry.name.chars entry.localName.chars

end NameEntry

/-- What is imported or re-exported besides a default: `* as a`, or a list of names. -/
inductive Bindings where
  | whole (beforeAs afterAs : Gap) (name : Name) (after : Gap)
  | names (list : Listing NameEntry) (after : Spacing)

namespace Bindings

/-- The bindings without the blanks behind them. -/
def core : Bindings → List Char
  | whole beforeAs afterAs name _ =>
    '*' :: (beforeAs.chars ++ ("as".toList ++ (afterAs.chars ++ name.chars)))
  | names list _ => list.chars NameEntry.chars

/-- The blanks behind the bindings. A word is set off from the next one. -/
def after : Bindings → Spacing
  | whole _ _ _ after => after.toSpacing
  | names _ after => after

def bound : Bindings → List ImportedName
  | whole _ _ name _ => [ModuleReference.bound ['*'] name.chars]
  | names list _ => list.entries.map NameEntry.bound

end Bindings

/-- What stands between `import` and `from`. -/
inductive ImportClause where
  | default (name : Name) (after : Gap)
  | bindings (inner : Bindings)
  | both (name : Name) (beforeComma afterComma : Spacing) (inner : Bindings)

namespace ImportClause

def core : ImportClause → List Char
  | default name _ => name.chars
  | bindings inner => inner.core
  | both name beforeComma afterComma inner =>
    name.chars ++ (beforeComma.chars ++ ',' :: (afterComma.chars ++ inner.core))

def after : ImportClause → Spacing
  | default _ after => after.toSpacing
  | bindings inner => inner.after
  | both _ _ _ inner => inner.after

def bound : ImportClause → List ImportedName
  | default name _ => [ModuleReference.bound "default".toList name.chars]
  | bindings inner => inner.bound
  | both name _ _ inner => ModuleReference.bound "default".toList name.chars :: inner.bound

end ImportClause

/-- What stands between `export` and `from`. -/
inductive ExportClause where
  | star (after : Spacing)
  | bindings (inner : Bindings)

namespace ExportClause

def core : ExportClause → List Char
  | star _ => ['*']
  | bindings inner => inner.core

def after : ExportClause → Spacing
  | star after => after
  | bindings inner => inner.after

def bound : ExportClause → List ImportedName
  | star _ => [ModuleReference.bound ['*'] ['*']]
  | bindings inner => inner.bound

end ExportClause

/-- One entry of a destructured module: `a`, or `a: b`. -/
structure Property where
  before : Spacing
  name : Name
  /-- The local name, with the blanks on both sides of the colon. -/
  renamed : Option (Spacing × Spacing × Name)
  after : Spacing

namespace Property

def localName (property : Property) : Name :=
  property.renamed.elim property.name fun (_, _, localName) => localName

/-- The entry without the blanks around it. -/
def core (property : Property) : List Char :=
  property.name.chars ++ property.renamed.elim [] fun (beforeColon, afterColon, localName) =>
    beforeColon.chars ++ ':' :: (afterColon.chars ++ localName.chars)

def chars (property : Property) : List Char :=
  property.before.chars ++ (property.core ++ property.after.chars)

def bound (property : Property) : ImportedName :=
  ModuleReference.bound property.name.chars property.localName.chars

end Property

/-- What a required module is bound to. -/
inductive Target where
  | whole (name : Name)
  | properties (list : Listing Property)

namespace Target

def chars : Target → List Char
  | whole name => name.chars
  | properties list => list.chars Property.chars

def bound : Target → List ImportedName
  | whole name => [ModuleReference.bound ['*'] name.chars]
  | properties list => list.entries.map Property.bound

end Target

/-! ## Statements -/

/-- The modifier `type`, with the blanks behind it. -/
def modifierChars (modifier : Option Gap) : List Char :=
  modifier.elim [] fun gap => "type".toList ++ gap.chars

/-- A declaration of a constant up to its value: the blanks behind the keyword, what is declared, and the
blanks around the sign of assignment. -/
structure Declaration where
  gap : Gap
  target : Target
  beforeSign : Spacing
  afterSign : Spacing

def Declaration.chars (declaration : Declaration) : List Char :=
  "const".toList ++ (declaration.gap.chars ++ (declaration.target.chars ++
    (declaration.beforeSign.chars ++ '=' :: declaration.afterSign.chars)))

theorem Declaration.chars_eq (declaration : Declaration) : declaration.chars =
    "const".toList ++ (declaration.gap.chars ++ (declaration.target.chars ++
      (declaration.beforeSign.chars ++ '=' :: declaration.afterSign.chars))) := rfl

/-- What stands before the specifier. -/
inductive Form where
  | importFrom (gap : Gap) (modifier : Option Gap) (clause : ImportClause) (space : Spacing)
  | bareImport (space : Spacing)
  | exportFrom (gap : Gap) (modifier : Option Gap) (clause : ExportClause) (space : Spacing)
  | dynamicImport (outer inner : Spacing)
  | requireCall (declaration : Option Declaration) (outer inner : Spacing)

namespace Form

def chars : Form → List Char
  | importFrom gap modifier clause space =>
    "import".toList ++ (gap.chars ++ (modifierChars modifier ++ (clause.core ++ (clause.after.chars ++
      ("from".toList ++ space.chars)))))
  | bareImport space => "import".toList ++ space.chars
  | exportFrom gap modifier clause space =>
    "export".toList ++ (gap.chars ++ (modifierChars modifier ++ (clause.core ++ (clause.after.chars ++
      ("from".toList ++ space.chars)))))
  | dynamicImport outer inner => "import".toList ++ (outer.chars ++ '(' :: inner.chars)
  | requireCall declaration outer inner =>
    declaration.elim [] Declaration.chars ++ ("require".toList ++ (outer.chars ++ '(' :: inner.chars))

section Equations

variable (gap : Gap) (modifier : Option Gap) (space outer inner : Spacing)

theorem chars_importFrom (clause : ImportClause) : (importFrom gap modifier clause space).chars =
    "import".toList ++ (gap.chars ++ (modifierChars modifier ++ (clause.core ++ (clause.after.chars ++
      ("from".toList ++ space.chars))))) := rfl

theorem chars_bareImport : (bareImport space).chars = "import".toList ++ space.chars := rfl

theorem chars_exportFrom (clause : ExportClause) : (exportFrom gap modifier clause space).chars =
    "export".toList ++ (gap.chars ++ (modifierChars modifier ++ (clause.core ++ (clause.after.chars ++
      ("from".toList ++ space.chars))))) := rfl

theorem chars_dynamicImport : (dynamicImport outer inner).chars =
    "import".toList ++ (outer.chars ++ '(' :: inner.chars) := rfl

theorem chars_requireCall (declaration : Option Declaration) : (requireCall declaration outer inner).chars =
    declaration.elim [] Declaration.chars ++ ("require".toList ++ (outer.chars ++ '(' :: inner.chars)) := rfl

end Equations

/-- The specifier is an argument. -/
def isCall : Form → Bool
  | dynamicImport .. | requireCall .. => true
  | _ => false

end Form

/-- What encloses a specifier. -/
inductive Mark where
  | apostrophe
  | quotation
  | backtick
  deriving DecidableEq

def Mark.char : Mark → Char
  | apostrophe => '\''
  | quotation => '"'
  | backtick => '\x60'

/-- The contents of a literal that are taken as they stand. -/
structure Specifier where
  chars : List Char
  ne_nil : chars ≠ []
  plain : ∀ c ∈ chars, c ∉ ['\'', '"', '\x60', '\\', '\n']
  whole : holds "$\x7b".toList chars = false

/-- A statement that refers to a module. Only a dynamic import may have a template for its specifier. -/
structure Statement where
  form : Form
  mark : Mark
  specifier : Specifier
  beforeEnd : Spacing
  template : mark = .backtick → ∃ outer inner, form = .dynamicImport outer inner

namespace Statement

/-- What follows the specifier. -/
def ending (s : Statement) : List Char :=
  s.beforeEnd.chars ++ ((if s.form.isCall then [')'] else []) ++ [';', '\n'])

/-- The statement as text. -/
def chars (s : Statement) : List Char :=
  s.form.chars ++ s.mark.char :: (s.specifier.chars ++ s.mark.char :: s.ending)

/-- The reference that the statement stands for when it begins on line `line`. -/
def reference (s : Statement) (line : Nat) : ModuleReference :=
  let specifier := String.ofList s.specifier.chars
  match s.form with
  | .importFrom _ modifier clause _ => .static specifier line modifier.isSome false clause.bound
  | .bareImport _ => .static specifier line false false []
  | .exportFrom _ modifier clause _ => .static specifier line modifier.isSome true clause.bound
  | .dynamicImport .. => .dynamic specifier line
  | .requireCall declaration .. => .require specifier line (declaration.elim [] (·.target.bound))

/-- The references of statements that stand one after the other from line `line` on. -/
def references : Nat → List Statement → List ModuleReference
  | _, [] => []
  | line, s :: rest => s.reference line :: references (line + s.chars.count '\n') rest

end Statement

end ApiImpact.ModuleReference
