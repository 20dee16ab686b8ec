/-!
Concrete syntax trees of TypeScript. A node has a label, the role it plays in its parent, and the byte
range from its first to its last token.
-/

namespace ApiImpact.TypeScript

/-- What a node is. -/
inductive Kind where
  | hashBang
  -- names and literals
  | identifier | propertyIdentifier | privatePropertyIdentifier | shorthandPropertyIdentifier
  | shorthandPropertyPattern | typeIdentifier | statementIdentifier | computedPropertyName
  | number | string | regex | templateString | templateSubstitution
  | this | super | undefined | null | boolean
  -- expressions
  | parenthesized | array | object | pair | spread | sequence | ternary | binary | unary | update
  | assignment | augmentedAssignment | await | yield | member | subscript | call | new | arguments
  | optionalChain | nonNull | nestedIdentifier | asExpression | satisfiesExpression
  | typeAssertion | instantiation | metaProperty | importCall | arrowFunction
  | functionExpression | generatorFunction | classExpression
  -- patterns and parameters
  | objectPattern | pairPattern | objectAssignmentPattern | arrayPattern | assignmentPattern
  | restPattern | formalParameters | requiredParameter | optionalParameter | decorator
  | accessibilityModifier | overrideModifier
  -- elements
  | jsxElement | jsxSelfClosing | jsxOpening | jsxClosing | jsxText | jsxExpression | jsxAttribute
  | jsxNamespaceName
  -- types
  | typeClause | typePredicateClause | assertsClause | typePredicate | asserts
  | typeArguments | typeParameters | typeParameter | constraint | defaultType | predefinedType
  | genericType | nestedTypeIdentifier | literalType | unionType | intersectionType | conditionalType
  | functionType | constructorType | arrayType | lookupType | tupleType | tupleParameter
  | optionalType | restType | objectType | mappedTypeClause | inferType | indexTypeQuery | typeQuery
  | readonlyType | parenthesizedType | templateLiteralType | thisType
  -- members of types and classes
  | propertySignature | methodSignature | callSignature | constructSignature | indexSignature
  | abstractMethodSignature | methodDefinition | publicField | staticBlock | classBody
  | interfaceBody | enumBody | enumAssignment | classHeritage | extendsClause | implementsClause
  | extendsTypeClause
  -- declarations
  | functionDeclaration | generatorFunctionDeclaration | functionSignature | classDeclaration
  | abstractClassDeclaration | interfaceDeclaration | typeAliasDeclaration | enumDeclaration
  | lexicalDeclaration | variableDeclaration | variableDeclarator | ambientDeclaration
  | internalModule | module | importAlias
  -- modules
  | exportStatement | exportClause | exportSpecifier | namespaceExport | importStatement
  | importClause | importSpecifier | namedImports | namespaceImport | importRequireClause
  | importAttribute
  -- statements
  | block | expressionStatement | ifStatement | elseClause | forStatement | forInStatement
  | whileStatement | doStatement | tryStatement | catchClause | finallyClause | switchStatement
  | switchBody | switchCase | returnStatement | throwStatement | breakStatement
  | continueStatement | labeledStatement | withStatement | emptyStatement | debuggerStatement
  deriving DecidableEq, Repr, Inhabited

/-- The part that a node plays in its parent. -/
inductive Role where
  | name | newName | source | value | declaration | body | parameters | parameter | returnType | type
  | pattern | object | property | index | left | right
  deriving DecidableEq, Repr

/-- A token of fixed text or a node of a kind. -/
inductive Label where
  | token (text : String)
  | node (kind : Kind)
  deriving DecidableEq, Repr, Inhabited

/-- A syntax tree. -/
inductive Tree where
  | mk (label : Label) (role : Option Role) (start stop : Nat) (children : List Tree)
  deriving Inhabited, Repr

namespace Tree

/-- The label of the root. -/
def label : Tree → Label
  | mk label .. => label

/-- The role of the root in its parent. -/
def role : Tree → Option Role
  | mk _ role .. => role

/-- The byte offset of the first token. -/
def start : Tree → Nat
  | mk _ _ start .. => start

/-- The byte offset behind the last token. -/
def stop : Tree → Nat
  | mk _ _ _ stop _ => stop

/-- The nodes and tokens it is made of, in order. -/
def children : Tree → List Tree
  | mk _ _ _ _ children => children

/-- The root is a node of this kind. -/
def is (tree : Tree) (kind : Kind) : Bool :=
  tree.label == .node kind

/-- The kind of the root, if it is a node. -/
def kind? (tree : Tree) : Option Kind :=
  match tree.label with
  | .node kind => some kind
  | .token _ => none

/-- The tree in the role `role`. -/
def as (tree : Tree) (role : Role) : Tree :=
  match tree with
  | mk label _ start stop children => mk label (some role) start stop children

/-- The tree with another kind. -/
def relabel (tree : Tree) (kind : Kind) : Tree :=
  match tree with
  | mk _ role start stop children => mk (.node kind) role start stop children

/-- A node without parts. -/
def leaf (kind : Kind) (start stop : Nat) : Tree :=
  mk (.node kind) none start stop []

/-- The node made of `children`, from the start of the first to the end of the last. -/
def branch (kind : Kind) (children : List Tree) : Tree :=
  mk (.node kind) none ((children.head?.map start).getD 0) ((children.getLast?.map stop).getD 0)
    children

/-- The children that are nodes. -/
def nodes (tree : Tree) : List Tree :=
  tree.children.filter fun child => child.kind?.isSome

/-- The first child in the role `role`. -/
def child? (tree : Tree) (role : Role) : Option Tree :=
  tree.children.find? fun child => child.role == some role

/-- One of the children is the token `text`. -/
def hasToken (tree : Tree) (text : String) : Bool :=
  tree.children.any fun child => child.label == .token text

end Tree

end ApiImpact.TypeScript
