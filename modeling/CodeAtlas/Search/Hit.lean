import CodeAtlas.Graph.Query
import CodeAtlas.Index.Basic

namespace CodeAtlas

structure SearchHit where
  record : IndexRecord
  /-- What the results are ordered by. -/
  score : Float32
  /-- How near the record is to the query. -/
  similarity : Float32
  /-- What the imports of its file contributed to the score. -/
  multiplier : Float32
  /-- The file that the text of the record names. -/
  path : Option String

namespace Boost

/-- A file counts as central if more files than this import it. -/
def centralImporters : Nat := 2

def central : Float32 := 0.3

/-- A file counts as integrating if it imports more files than this. -/
def integratingImports : Nat := 3

def integrating : Float32 := 0.2

/-- For each other result in a file next to it. -/
def related : Float32 := 0.4

/-- The files that a file imports or that import it. -/
def neighbours (graph : Graph) (path : String) : List String :=
  let id := GraphNode.fileId path
  ((graph.importsOf id ++ graph.importersOf id).filterMap graph.node?).filterMap (·.path)

/-- How many results other than the one at an index are in one of the files. -/
def countRelated (files : List String) (paths : List (Option String)) (index : Nat) : Nat :=
  paths.zipIdx.countP fun (path, other) => other != index && path.any files.contains

/-- The factor for a result in a file with so many imports, importers and related results. -/
def fileMultiplier (imports importedBy relatedCount : Nat) : Float32 :=
  let plain : Float32 := 1.0
  let withCentral := if centralImporters < importedBy then plain + central else plain
  let withIntegrating :=
    if integratingImports < imports then withCentral + integrating else withCentral
  withIntegrating + related * relatedCount.toFloat32

/-- The factor for the result at an index, among results in files with the given paths. The pairs
are the two ends of all imports. -/
def multiplier (graph : Graph) (pairs : List (String × String)) (paths : List (Option String))
    (index : Nat) (path : Option String) : Float32 :=
  match path with
  | none => 1.0
  | some path =>
    if graph.contains (GraphNode.fileId path) then
      fileMultiplier (pairs.countP (·.1 == path)) (pairs.countP (·.2 == path))
        (countRelated (neighbours graph path) paths index)
    else 1.0

/-- Multiplies the score of each result. -/
def raise (graph : Graph) (hits : List SearchHit) : List SearchHit :=
  let pairs := graph.pathPairs .imports
  let paths := hits.map (·.path)
  hits.zipIdx.map fun (hit, index) =>
    let factor := multiplier graph pairs paths index hit.path
    { hit with multiplier := factor, score := hit.score * factor }

variable [Machine]

/-- Multiplies the scores and orders the results by them. -/
def apply (graph : Graph) (hits : List SearchHit) : List SearchHit :=
  Embedding.sortByScore SearchHit.score (raise graph hits)

end Boost

end CodeAtlas
