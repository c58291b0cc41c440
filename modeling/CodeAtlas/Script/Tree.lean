namespace CodeAtlas.Script

/-- A place in a source text: characters before it, and line breaks before it. -/
structure Position where
  offset : Nat
  row : Nat
  deriving Repr, DecidableEq, Inhabited

/-- The stretch of source from `start` up to but not including `stop`, which is in no earlier row. -/
structure Span where
  start : Position
  stop : Position
  ordered : start.row ≤ stop.row
  deriving Repr, DecidableEq

instance inhabitedSpan : Inhabited Span := ⟨⟨default, default, Nat.le_refl _⟩⟩

/-- The stretch from one place to another that a reader got to from there. -/
def Position.upTo (start stop : Position) : Span :=
  if ordered : start.row ≤ stop.row then ⟨start, stop, ordered⟩
  else ⟨start, start, Nat.le_refl _⟩

/-- What a node is. Constructs that no analysis tells apart share a kind: `statement` and
`expression` stand for every statement and expression without a kind of its own. -/
inductive Kind where
  | program | statement | statementBlock
  | importStatement | importClause | importRequireClause | namespaceImport | namedImports
  | importSpecifier | exportStatement | importAlias
  | functionDeclaration | generatorFunctionDeclaration | functionSignature
  | classDeclaration | abstractClassDeclaration | interfaceDeclaration | typeAliasDeclaration
  | lexicalDeclaration | variableDeclaration | variableDeclarator
  | ambientDeclaration | namespaceDeclaration | enumDeclaration
  | classHeritage | classBody | methodDefinition | methodSignature | fieldDefinition | staticBlock
  | decorator | parameters | arguments
  | identifier | propertyName | pattern | string | literal | template | keyword
  | callExpression | memberExpression | subscriptExpression | newExpression | nonNullExpression
  | arrowFunction | functionExpression | generatorFunction | classExpression
  | parenthesized | object | array | assignment | expression
  | markup | typeExpression
  deriving Repr, DecidableEq, Inhabited

/-- The part a node plays in its parent. -/
inductive Role where
  | name | alias | value | body | source | declaration | callee | receiver | property
  deriving Repr, DecidableEq, Inhabited

inductive Node where
  | mk (kind : Kind) (role : Option Role) (span : Span) (children : List Node)
  deriving Inhabited

namespace Node

def kind : Node → Kind
  | mk kind _ _ _ => kind

def role : Node → Option Role
  | mk _ role _ _ => role

def span : Node → Span
  | mk _ _ span _ => span

def children : Node → List Node
  | mk _ _ _ children => children

/-- The same node in another part. -/
def withRole (node : Node) (role : Role) : Node :=
  mk node.kind (some role) node.span node.children

/-- The first child that plays the part. -/
def child? (node : Node) (role : Role) : Option Node :=
  node.children.find? (·.role == some role)

def firstRow (node : Node) : Nat := node.span.start.row

def lastRow (node : Node) : Nat := node.span.stop.row

end Node

/-- The characters that a span covers. -/
def Span.textIn (span : Span) (source : Array Char) : String :=
  String.ofList (source.extract span.start.offset span.stop.offset).toList

end CodeAtlas.Script
