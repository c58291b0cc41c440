import CodeAtlas.Engine.Basic
import CodeAtlas.Graph.Report

namespace CodeAtlas

open Json

/-- What a run says: a text for other programs, and notes for whoever runs it. -/
structure Sayings where
  output : String
  notes : List String
  deriving Repr, DecidableEq

namespace Sayings

def ofJson (json : Json) : Sayings := ⟨renderIndented 0 json ++ "\n", []⟩

/-- Lines of output. -/
def ofLines (lines : List String) : Sayings := ⟨String.join (lines.map (· ++ "\n")), []⟩

end Sayings

def IndexReport.encode (report : IndexReport) : Json :=
  object [
    ("files_indexed", ofNat report.filesIndexed),
    ("chunks_indexed", ofNat report.chunksIndexed),
    ("skipped", array (report.skipped.map Skipped.encode)),
    ("fallback_batches", ofNat report.fallbackBatches)]

/-- All that came of indexing a project. -/
structure Indexed where
  root : String
  filesScanned : Nat
  build : BuildReport
  snapshotWritten : Bool
  index : IndexReport
  stats : Option Graph.Stats
  /-- Whether vectors are hashes of texts for want of a provider. -/
  hashed : Bool

namespace Indexed

def encode (indexed : Indexed) : Json :=
  object [
    ("root", string indexed.root),
    ("files_scanned", ofNat indexed.filesScanned),
    ("graph", indexed.build.encode indexed.snapshotWritten),
    ("index", indexed.index.encode),
    ("stats", (indexed.stats.map Graph.Stats.encode).getD null)]

/-- What is worth a note about vectors. -/
def fallbackNotes (indexed : Indexed) : List String :=
  let batches := indexed.index.fallbackBatches
  if indexed.hashed then ["fallback embeddings used (no embedding provider configured)"]
  else if batches = 0 then []
  else [s!"fallback embeddings used for {batches} batches"]

/-- A note that counts something, unless there is nothing to be counted. -/
def countNote (count : Nat) (text : String) : List String :=
  if count = 0 then [] else [toString count ++ text]

def notes (indexed : Indexed) : List String :=
  let files := indexed.index.filesIndexed
  let chunks := indexed.index.chunksIndexed
  let nodes := (indexed.stats.map (·.totalNodes)).getD 0
  let edges := (indexed.stats.map (·.totalEdges)).getD 0
  [s!"Indexed {files} files, {chunks} chunks; graph has {nodes} nodes, {edges} edges"]
    ++ countNote indexed.build.skipped.length " files skipped"
    ++ countNote indexed.build.diagnostics.length " files indexed with parse errors"
    ++ countNote indexed.build.importsUnresolved " relative imports could not be resolved"
    ++ indexed.fallbackNotes

def say (indexed : Indexed) (json : Bool) : Sayings :=
  if json then .ofJson indexed.encode else ⟨"", indexed.notes⟩

end Indexed

namespace SearchHit

/-- Something known about the record of a result, if it is a string. -/
def word? (hit : SearchHit) (key : String) : Option String :=
  match hit.record.metadata.lookup key with
  | some (string text) => some text
  | _ => none

/-- Something known about the record of a result, if it is a natural number. -/
def count? (hit : SearchHit) (key : String) : Option Nat :=
  match hit.record.metadata.lookup key with
  | some (number (.integer value)) => if 0 ≤ value then some value.toNat else none
  | _ => none

def encode (hit : SearchHit) : Json :=
  object [
    ("id", string hit.record.id),
    ("file", (hit.path.map string).getD null),
    ("symbol", ((hit.word? "symbol").map string).getD null),
    ("start_line", ((hit.count? "start_line").map ofNat).getD null),
    ("end_line", ((hit.count? "end_line").map ofNat).getD null),
    ("score", ofFloat32 hit.score),
    ("similarity", ofFloat32 hit.similarity),
    ("multiplier", ofFloat32 hit.multiplier)]

/-- The lines about a result at a rank, counted from 1. -/
def lines (hit : SearchHit) (rank : Nat) : List String :=
  let file := hit.path.getD hit.record.id
  let score := Decimal.writeFixed 3 hit.score.toBits
  let place := match hit.count? "start_line", hit.count? "end_line" with
    | some first, some last => [s!"   Lines: {first}-{last}"]
    | _, _ => []
  [s!"{rank}. {file} (score: {score})"]
    ++ ((hit.word? "symbol").map fun symbol => "   Symbol: " ++ symbol).toList ++ place ++ [""]

/-- What is said about the results of a query. -/
def sayAll (query : String) (hits : List SearchHit) (json : Bool) : Sayings :=
  if json then
    .ofJson (object [("query", string query), ("results", array (hits.map SearchHit.encode))])
  else if hits.isEmpty then ⟨"", ["No results"]⟩
  else .ofLines (hits.zipIdx.flatMap fun (hit, rank) => hit.lines (rank + 1))

end SearchHit

namespace Graph.Stats

/-- A name in a column of ten characters, and a count after it. -/
def line (name : String) (count : Nat) : String :=
  "  " ++ name ++ String.ofList (List.replicate (10 - name.length) ' ') ++ " " ++ toString count

/-- What is said about a graph and the number of vectors beside it. -/
def say (stats : Graph.Stats) (vectors : Nat) (json : Bool) : Sayings :=
  if json then .ofJson stats.encode
  else
    .ofLines ([s!"Nodes: {stats.totalNodes}"]
      ++ stats.nodesByType.map (fun (type, count) => line type.name count)
      ++ [s!"Edges: {stats.totalEdges}"]
      ++ stats.edgesByType.map (fun (type, count) => line type.name count)
      ++ [s!"Vectors: {vectors}"])

end Graph.Stats

/-- A node with those that edges join it to. -/
structure Neighbors where
  node : GraphNode
  contains : List GraphNode
  callers : List GraphNode
  callees : List GraphNode
  imports : List GraphNode
  importers : List GraphNode
  deriving Repr, DecidableEq

namespace Neighbors

def encode (neighbors : Neighbors) : Json :=
  let nodes (found : List GraphNode) := array (found.map Graph.encodeNode)
  object [
    ("node", Graph.encodeNode neighbors.node),
    ("contains", nodes neighbors.contains),
    ("callers", nodes neighbors.callers),
    ("callees", nodes neighbors.callees),
    ("imports", nodes neighbors.imports),
    ("importers", nodes neighbors.importers)]

/-- The lines about nodes under a title, none if there are no nodes. -/
def part (title : String) (nodes : List GraphNode) : List String :=
  if nodes.isEmpty then [] else ("  " ++ title ++ ":") :: nodes.map fun node => "    " ++ node.id

def lines (neighbors : Neighbors) : List String :=
  [s!"{neighbors.node.id} ({neighbors.node.type.name})"]
    ++ part "contains" neighbors.contains
    ++ part "callers" neighbors.callers
    ++ part "callees" neighbors.callees
    ++ part "imports" neighbors.imports
    ++ part "imported by" neighbors.importers

def say (neighbors : Neighbors) (json : Bool) : Sayings :=
  if json then .ofJson neighbors.encode else .ofLines neighbors.lines

end Neighbors

end CodeAtlas
