import CodeAtlas.Outline.Calls

namespace CodeAtlas.Outline

open Script

variable (text : Wording)

/-- The symbol that a node declares. -/
def declared (name : String) (kind : SymbolKind) (exported : Bool) (node : Node) : Declared :=
  ⟨name, kind, node.firstRow + 1, node.lastRow + 1, exported⟩

/-- A variable is a function if its value is one. A pattern declares no symbol. -/
def ofVariable (exported : Bool) (node : Node) : Outline :=
  let value := node.child? .value
  let callable := value.any fun value => isFunctionValue value.kind
  let calls (context : Option String) := (value.map (callsIn text context)).getD []
  match variableName? text node with
  | some name =>
    let kind := if callable then SymbolKind.function else .variableDecl
    ⟨[declared name kind exported node], [], calls (if callable then some name else none)⟩
  | none => ofCalls (calls none)

/-- A member of the class `owner`. A method is called by the name of its class and its own. -/
def ofMember (owner : String) (exported : Bool) (member : Node) : Outline :=
  match (if member.kind == .methodDefinition then name? text member else none) with
  | some method =>
    let name := owner ++ "." ++ method
    ⟨[declared name .function exported member], [], callsIn text (some name) member⟩
  | none => ofCalls (callsIn text none member)

/-- A class, what it extends and its members. -/
def ofClass (exported : Bool) (node : Node) : Outline :=
  match name? text node with
  | none => ofCalls (callsIn text none node)
  | some name =>
    let heritage := node.children.find? (·.kind == .classHeritage)
    let members := ((node.child? .body).map Node.children).getD []
    ⟨[declared name .classDecl exported node], [], (heritage.map (callsIn text none)).getD []⟩ ++
      join (members.map (ofMember text name exported))

/-- A declaration, or any other statement, which is only searched for calls. -/
def ofDeclaration (exported : Bool) (node : Node) : Outline :=
  let function : Outline :=
    match name? text node with
    | some name => ⟨[declared name .function exported node], [], callsIn text (some name) node⟩
    | none => ofCalls (callsIn text none node)
  let typeNamed (kind : SymbolKind) : Outline :=
    ⟨((name? text node).map fun name => declared name kind exported node).toList, [], []⟩
  match node.kind with
  | .functionDeclaration => function
  | .generatorFunctionDeclaration => function
  | .classDeclaration => ofClass text exported node
  | .abstractClassDeclaration => ofClass text exported node
  | .interfaceDeclaration => typeNamed .interface
  | .typeAliasDeclaration => typeNamed .typeAlias
  | .lexicalDeclaration =>
    join ((node.children.filter (·.kind == .variableDeclarator)).map (ofVariable text exported))
  | .variableDeclaration =>
    join ((node.children.filter (·.kind == .variableDeclarator)).map (ofVariable text exported))
  | _ => ofCalls (callsIn text none node)

/-- The bindings of one part of an import clause: names, and whether each is the default. -/
def clauseBindings (part : Node) : List (String × Bool) :=
  match part.kind with
  | .identifier => [(text part, true)]
  | .namespaceImport =>
    ((part.children.find? (·.kind == .identifier)).map fun name => (text name, false)).toList
  | .namedImports =>
    part.children.filterMap fun specifier =>
      if specifier.kind == .importSpecifier then
        let imported := specifier.child? .name
        let isDefault := imported.any fun name => text name == "default"
        ((specifier.child? .alias).or imported).map fun bound => (text bound, isDefault)
      else none
  | _ => []

/-- The bindings of a child of an import statement. -/
def importBindings (child : Node) : List (String × Bool) :=
  match child.kind with
  | .importClause => child.children.flatMap (clauseBindings text)
  | .importRequireClause =>
    ((child.children.find? (·.kind == .identifier)).map fun name => (text name, true)).toList
  | _ => []

def isQuote (c : Char) : Bool := c == '\x22' || c == '\x27' || c == '\x60'

/-- A text without the quotes at its ends. -/
def unquote (quoted : String) : String :=
  let inner := (quoted.toList.dropWhile isQuote).reverse.dropWhile isQuote
  String.ofList inner.reverse

/-- What an import statement binds, each name from the module it names; `*` if it names nothing. -/
def ofImport (node : Node) : Outline :=
  match node.child? .source with
  | none => empty
  | some source =>
    let module := unquote (text source)
    let bindings := match node.children.flatMap (importBindings text) with
      | [] => [("*", false)]
      | bindings => bindings
    ⟨[], bindings.map fun (name, isDefault) => ⟨name, module, isDefault⟩, []⟩

/-- A top-level statement. -/
def ofStatement (node : Node) : Outline :=
  match node.kind with
  | .importStatement => ofImport text node
  | .exportStatement =>
    match node.child? .declaration with
    | some declaration => ofDeclaration text true declaration
    | none => ofCalls (callsIn text none node)
  | _ => ofDeclaration text false node

/-- The outline of a whole file, from its tree. -/
def ofTree (tree : Node) : Outline := join (tree.children.map (ofStatement text))

end CodeAtlas.Outline
