import ApiImpact.Language
import ApiImpact.Text.Blank
import ApiImpact.Text.Offset
import ApiImpact.TypeScript.Parse

/-!
Uses of names as values. Names that are being declared, clauses of imports and exports, and types are
left out, so a name counts only where the code reads it.
-/

namespace ApiImpact.TypeScript

open Text

/-- One use of a name. -/
structure Reference where
  name : String
  /-- The property that is read through it. -/
  member : Option String := none
  deriving DecidableEq, Repr, Inhabited

/-- The text of a node. -/
def textOf (source : List Char) (tree : Tree) : List Char :=
  (slice? source tree.start tree.stop).getD []

/-- A quotation mark of a literal. -/
def isQuotation (c : Char) : Bool :=
  c == '\'' || c == '"' || c == '\x60'

/-- A literal without the quotation marks around it; other text as it is. -/
def unquote (text : List Char) : String :=
  .ofList (dropEndWhile isQuotation ((trim text).dropWhile isQuotation))

/-- Nodes in which no name is read as a value. -/
def holdsNoValue : Kind → Bool
  | .importStatement | .exportClause | .typeClause | .typeArguments | .typeParameters
  | .interfaceDeclaration | .typeAliasDeclaration | .string => true
  | _ => false

/-- The role in which a node of this kind declares a name. -/
def declaringRole? : Kind → Option Role
  | .functionDeclaration | .generatorFunctionDeclaration | .classDeclaration
  | .abstractClassDeclaration | .variableDeclarator | .functionExpression | .classExpression
  | .methodDefinition | .enumDeclaration => some .name
  | .requiredParameter | .optionalParameter => some .pattern
  | .arrowFunction => some .parameter
  | _ => none

/-- The property of a fixed name that an access reads through a name. -/
def memberRead? (source : List Char) (access : Tree) : Option Reference := do
  let object ← access.child? .object
  let member ← access.child? .property <|> access.child? .index
  if object.is .identifier && (member.is .propertyIdentifier || member.is .string) then
    some ⟨.ofList (textOf source object), some (unquote (textOf source member))⟩
  else none

mutual

/-- The uses of names in a node that plays the role `declared` of its parent's declared name or not. -/
def usesIn (source : List Char) (declaring : Option Role) : Tree → List Reference
  | .mk label role start stop children =>
    match label with
    | .token _ => []
    | .node kind =>
      let tree := Tree.mk label role start stop children
      if holdsNoValue kind then []
      else if kind = .identifier ∨ kind = .shorthandPropertyIdentifier then
        if role.isSome && role == declaring then [] else [⟨.ofList (textOf source tree), none⟩]
      else
        let read := if kind = .member ∨ kind = .subscript then memberRead? source tree else none
        match read with
        | some reference => [reference]
        | none => usesInAll source (declaringRole? kind) children

/-- The uses of names in the children of a node, of which the one in the role `declaring` is declared. -/
def usesInAll (source : List Char) (declaring : Option Role) : List Tree → List Reference
  | [] => []
  | tree :: trees => usesIn source declaring tree ++ usesInAll source declaring trees

end

/-- A language whose expressions may be elements. -/
def hasElements : Language → Bool
  | .tsx | .jsx => true
  | _ => false

/-- The uses of names in `text`, in order. -/
def references (text : String) (language : Language) : List Reference :=
  let source := text.toList
  usesInAll source none (parse source (hasElements language)).statements

end ApiImpact.TypeScript
