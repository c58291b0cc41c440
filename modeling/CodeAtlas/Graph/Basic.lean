import CodeAtlas.Outline.Basic

namespace CodeAtlas

inductive NodeType where
  | file
  | symbol (kind : SymbolKind)
  deriving Repr, DecidableEq

namespace NodeType

def name : NodeType → String
  | file => "file"
  | symbol kind => kind.name

def ofName? (name : String) : Option NodeType :=
  if name = "file" then some file else (SymbolKind.ofName? name).map symbol

/-- All types, in the order in which they are counted. -/
def all : List NodeType :=
  [file, symbol .function, symbol .classDecl, symbol .interface, symbol .typeAlias,
    symbol .variableDecl]

end NodeType

inductive EdgeType where
  /-- A file declares a symbol. -/
  | contains
  /-- A file imports a file. -/
  | imports
  /-- A function, or the top level of a file, calls a function. -/
  | calls
  deriving Repr, DecidableEq

namespace EdgeType

def name : EdgeType → String
  | contains => "contains"
  | imports => "imports"
  | calls => "calls"

def ofName? : String → Option EdgeType
  | "contains" => some contains
  | "imports" => some imports
  | "calls" => some calls
  | _ => none

def all : List EdgeType := [contains, imports, calls]

end EdgeType

structure GraphNode where
  id : String
  /-- The name to show. -/
  label : String
  type : NodeType
  path : Option String
  exported : Option Bool
  deriving Repr, DecidableEq

namespace GraphNode

def fileId (path : String) : String := "file:" ++ path

def symbolId (kind : SymbolKind) (path name : String) : String :=
  kind.name ++ ":" ++ path ++ ":" ++ name

def ofFile (path : String) : GraphNode :=
  ⟨fileId path, path, .file, some path, none⟩

/-- The node of a symbol declared in the file. -/
def ofSymbol (path : String) (symbol : Declared) : GraphNode :=
  ⟨symbolId symbol.kind path symbol.name, symbol.name, .symbol symbol.kind, some path,
    some symbol.exported⟩

end GraphNode

structure GraphEdge where
  source : String
  target : String
  type : EdgeType
  deriving Repr, DecidableEq

/-- Nodes and relations in the order in which they were added. Two nodes may be related in several
ways, and several times in one way. -/
structure Graph where
  nodes : List GraphNode
  edges : List GraphEdge
  deriving Repr, DecidableEq

namespace Graph

def empty : Graph := ⟨[], []⟩

def node? (graph : Graph) (id : String) : Option GraphNode := graph.nodes.find? (·.id == id)

def contains (graph : Graph) (id : String) : Bool := graph.nodes.any (·.id == id)

/-- Adds a node unless its id is taken. -/
def addNode (graph : Graph) (node : GraphNode) : Graph :=
  if graph.contains node.id then graph else { graph with nodes := graph.nodes ++ [node] }

/-- How many nodes were added before the one with the id. -/
def indexOf (graph : Graph) (id : String) : Nat := graph.nodes.findIdx (·.id == id)

/-- Whether both ends of a relation are nodes. -/
def joins (graph : Graph) (edge : GraphEdge) : Bool :=
  graph.contains edge.source && graph.contains edge.target

/-- Adds a relation if both its ends are nodes. -/
def addEdge (graph : Graph) (edge : GraphEdge) : Graph :=
  if graph.joins edge then { graph with edges := graph.edges ++ [edge] } else graph

def hasEdge (graph : Graph) (edge : GraphEdge) : Bool := graph.edges.contains edge

def isEmpty (graph : Graph) : Bool := graph.nodes.isEmpty

end Graph

end CodeAtlas
