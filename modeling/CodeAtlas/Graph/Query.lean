import CodeAtlas.Graph.Basic

namespace CodeAtlas.Graph

/-- The items without those that are equal to an earlier one. -/
def distinct {α : Type} [BEq α] (items : List α) : List α :=
  items.foldl (fun kept item => if kept.contains item then kept else kept ++ [item]) []

variable (graph : Graph)

/-- What a node is related to, each once, in the order of the relations. -/
def targets (id : String) (type : EdgeType) : List String :=
  distinct ((graph.edges.filter fun edge => edge.source == id && edge.type == type).map (·.target))

/-- What is related to a node, each once, in the order of the relations. -/
def sources (id : String) (type : EdgeType) : List String :=
  distinct ((graph.edges.filter fun edge => edge.target == id && edge.type == type).map (·.source))

def callersOf (id : String) : List String := graph.sources id .calls

def calleesOf (id : String) : List String := graph.targets id .calls

def importsOf (id : String) : List String := graph.targets id .imports

def importersOf (id : String) : List String := graph.sources id .imports

def symbolsIn (id : String) : List String := graph.targets id .contains

/-- A search: what was seen, what was found, with its distance, and what is still to be looked at. -/
structure Walk (ν : Type) where
  visited : List ν
  found : List (ν × Nat)
  queue : List (ν × Nat)

namespace Walk

variable {ν : Type} [BEq ν]

def start (first : ν) : Walk ν := ⟨[first], [], [(first, 0)]⟩

/-- Notes a node at a distance unless it was seen before. -/
def visit (walk : Walk ν) (distance : Nat) (node : ν) : Walk ν :=
  if walk.visited.contains node then walk
  else ⟨node :: walk.visited, walk.found ++ [(node, distance)], walk.queue ++ [(node, distance)]⟩

/-- Looks at the node that was found first, and what comes next to it if it is not too far away. -/
def step (next : ν → List ν) (maxDepth : Nat) (walk : Walk ν) : Walk ν :=
  match walk.queue with
  | [] => walk
  | (current, depth) :: queue =>
    let walk := { walk with queue }
    if maxDepth ≤ depth then walk else (next current).foldl (·.visit (depth + 1)) walk

def search (next : ν → List ν) (maxDepth : Nat) : Nat → Walk ν → Walk ν
  | 0, walk => walk
  | steps + 1, walk => search next maxDepth steps (walk.step next maxDepth)

end Walk

/-- The files reached through at most `maxDepth` imports with their distances, nearer ones first.
Each node enters the queue at most once, so as many steps as there are nodes suffice. -/
def transitiveImports (id : String) (maxDepth : Nat) : List (String × Nat) :=
  if graph.contains id then
    (Walk.search graph.importsOf maxDepth graph.nodes.length (.start id)).found
  else []

/-- How often the files at the two ends of imports and calls occur there. -/
structure Connectivity where
  imports : Nat
  importedBy : Nat
  calls : Nat
  calledBy : Nat
  deriving Repr, DecidableEq

/-- The paths of both ends of a relation, if both have one. -/
def endPaths? (edge : GraphEdge) : Option (String × String) := do
  return (← (← graph.node? edge.source).path, ← (← graph.node? edge.target).path)

/-- The paths of both ends of the relations of one type. -/
def pathPairs (type : EdgeType) : List (String × String) :=
  (graph.edges.filter (·.type == type)).filterMap graph.endPaths?

/-- How often a path occurs among the ends of imports and of calls. -/
def Connectivity.count (imports calls : List (String × String)) (path : String) : Connectivity :=
  ⟨imports.countP (·.1 == path), imports.countP (·.2 == path),
    calls.countP (·.1 == path), calls.countP (·.2 == path)⟩

def connectivityOf (path : String) : Connectivity :=
  .count (graph.pathPairs .imports) (graph.pathPairs .calls) path

/-- The connectivity of every file that an import or a call touches. -/
def fileConnectivity : List (String × Connectivity) :=
  let imports := graph.pathPairs .imports
  let calls := graph.pathPairs .calls
  (distinct ((imports ++ calls).flatMap fun (source, target) => [source, target])).map fun path =>
    (path, .count imports calls path)

/-- Numbers of nodes and relations, in all and of each type that occurs. -/
structure Stats where
  totalNodes : Nat
  totalEdges : Nat
  nodesByType : List (NodeType × Nat)
  edgesByType : List (EdgeType × Nat)
  deriving Repr, DecidableEq

def stats : Stats where
  totalNodes := graph.nodes.length
  totalEdges := graph.edges.length
  nodesByType := (NodeType.all.map fun type => (type, graph.nodes.countP (·.type == type))).filter
    fun (_, count) => count != 0
  edgesByType := (EdgeType.all.map fun type => (type, graph.edges.countP (·.type == type))).filter
    fun (_, count) => count != 0

end CodeAtlas.Graph
