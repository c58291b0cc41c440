import CodeAtlas.Graph.Basic
import CodeAtlas.Json.Decode
import CodeAtlas.Json.Printer

namespace CodeAtlas.Graph

/-- An object whose members stand in the given order. -/
def encodeNode (node : GraphNode) : Json :=
  .object ([("id", .string node.id), ("label", .string node.label), ("type", .string node.type.name)]
    ++ (node.path.map fun path => ("path", Json.string path)).toList
    ++ (node.exported.map fun exported => ("exported", Json.bool exported)).toList)

def encodeEdge (edge : GraphEdge) : Json :=
  .object [("source", .string edge.source), ("target", .string edge.target),
    ("type", .string edge.type.name)]

def encode (graph : Graph) : Json :=
  .object [("nodes", .array (graph.nodes.map encodeNode)),
    ("edges", .array (graph.edges.map encodeEdge))]

/-- The text of a graph. -/
def save (graph : Graph) : String := graph.encode.render

open Json in
def nodeDecoder : Decoder GraphNode :=
  Decoder.record ["id", "label", "type", "path", "exported"] fun depth fields =>
    match fields with
    | [id, label, type, path, exported] => do
      return {
        id := ← Decoder.required Decoder.string depth id
        label := ← Decoder.required Decoder.string depth label
        type := ← Decoder.required (Decoder.word NodeType.ofName?) depth type
        path := ← Decoder.defaulted none (Decoder.optional Decoder.string) depth path
        exported := ← Decoder.defaulted none (Decoder.optional Decoder.bool) depth exported }
    | _ => none

open Json in
def edgeDecoder : Decoder GraphEdge :=
  Decoder.record ["source", "target", "type"] fun depth fields =>
    match fields with
    | [source, target, type] => do
      return {
        source := ← Decoder.required Decoder.string depth source
        target := ← Decoder.required Decoder.string depth target
        type := ← Decoder.required (Decoder.word EdgeType.ofName?) depth type }
    | _ => none

/-- An entry of a text, as it counts once its repeated keys are settled. -/
def entryDecoder : Json.Decoder Json.Document := fun depth document => do
  let _ ← document.toJson? depth
  return document.settle

open Json in
/-- The entries of a text: those for nodes and those for edges. -/
def entriesDecoder : Decoder (List Document × List Document) :=
  Decoder.record ["nodes", "edges"] fun depth fields =>
    match fields with
    | [nodes, edges] => do
      return (← Decoder.defaulted [] (Decoder.list entryDecoder) depth nodes,
        ← Decoder.defaulted [] (Decoder.list entryDecoder) depth edges)
    | _ => none

/-- A graph read from a text, and how many entries were left out. -/
structure Loaded where
  graph : Graph
  quarantined : Nat
  deriving Repr, DecidableEq

namespace Loaded

/-- Takes up a node, or counts it if it is malformed or its id is taken. -/
def addNode (loaded : Loaded) (node : Option GraphNode) : Loaded :=
  match node with
  | none => { loaded with quarantined := loaded.quarantined + 1 }
  | some node =>
    if loaded.graph.contains node.id then { loaded with quarantined := loaded.quarantined + 1 }
    else { loaded with graph := loaded.graph.addNode node }

/-- Takes up a relation, or counts it if it is malformed or an end of it is missing. -/
def addEdge (loaded : Loaded) (edge : Option GraphEdge) : Loaded :=
  match edge with
  | none => { loaded with quarantined := loaded.quarantined + 1 }
  | some edge =>
    if loaded.graph.joins edge then { loaded with graph := loaded.graph.addEdge edge }
    else { loaded with quarantined := loaded.quarantined + 1 }

end Loaded

/-- The graph of the entries. -/
def restore (nodes : List (Option GraphNode)) (edges : List (Option GraphEdge)) : Loaded :=
  edges.foldl Loaded.addEdge (nodes.foldl Loaded.addNode ⟨empty, 0⟩)

/-- Reads a graph from its text; none if the text as a whole is not one of a graph. -/
def load? (text : String) : Option Loaded := do
  let (nodes, edges) ← Json.decode? entriesDecoder text
  return restore (nodes.map (nodeDecoder Json.maxDepth)) (edges.map (edgeDecoder Json.maxDepth))

end CodeAtlas.Graph
