import CodeAtlas.Graph.Snapshot
import CodeAtlas.Proofs.Graph.Reachable
import CodeAtlas.Proofs.Json.Record
import CodeAtlas.Proofs.Json.Spelling

namespace CodeAtlas

theorem SymbolKind.ofName?_name (kind : SymbolKind) : ofName? kind.name = some kind := by
  cases kind <;> rfl

theorem NodeType.ofName?_name (type : NodeType) : ofName? type.name = some type := by
  cases type with
  | file => rfl
  | symbol kind => cases kind <;> rfl

theorem EdgeType.ofName?_name (type : EdgeType) : ofName? type.name = some type := by
  cases type <;> rfl

namespace Graph

open Json

/-- What is read for a node, in the order in which it is written. -/
def nodeMembers (node : GraphNode) : List (String × Document) :=
  [("id", .string node.id), ("label", .string node.label), ("type", .string node.type.name)]
    ++ (node.path.map fun path => ("path", Document.string path)).toList
    ++ (node.exported.map fun exported => ("exported", Document.bool exported)).toList

def edgeMembers (edge : GraphEdge) : List (String × Document) :=
  [("source", .string edge.source), ("target", .string edge.target),
    ("type", .string edge.type.name)]

def members (graph : Graph) : List (String × Document) :=
  [("nodes", .array (graph.nodes.map fun node => .ofMembers (nodeMembers node))),
    ("edges", .array (graph.edges.map fun edge => .ofMembers (edgeMembers edge)))]

theorem distinct_nodeMembers (node : GraphNode) : ((nodeMembers node).map (·.1)).Nodup := by
  obtain ⟨id, label, type, path, exported⟩ := node
  cases path <;> cases exported <;> simp [nodeMembers]

theorem distinct_edgeMembers (edge : GraphEdge) : ((edgeMembers edge).map (·.1)).Nodup := by
  simp [edgeMembers]

theorem distinct_members (graph : Graph) : (graph.members.map (·.1)).Nodup := by
  simp [members]

theorem spells_encodeNode (node : GraphNode) :
    Spells (encodeNode node) (.ofMembers (nodeMembers node)) := by
  obtain ⟨id, label, type, path, exported⟩ := node
  refine .object (.cons _ (.string _) (.cons _ (.string _) (.cons _ (.string _) ?_)))
  cases path with
  | none =>
    cases exported with
    | none => exact .nil
    | some exported => exact .cons _ (.bool _) .nil
  | some path =>
    cases exported with
    | none => exact .cons _ (.string _) .nil
    | some exported => exact .cons _ (.string _) (.cons _ (.bool _) .nil)

theorem spells_encodeEdge (edge : GraphEdge) :
    Spells (encodeEdge edge) (.ofMembers (edgeMembers edge)) :=
  .object (.cons _ (.string _) (.cons _ (.string _) (.cons _ (.string _) .nil)))

theorem spells_encode (graph : Graph) : Spells graph.encode (.ofMembers graph.members) :=
  .object (.cons _ (.array (.map spells_encodeNode _))
    (.cons _ (.array (.map spells_encodeEdge _)) .nil))

theorem nodeDecoder_ofMembers (depth : Nat) (node : GraphNode) :
    nodeDecoder (depth + 1) (.ofMembers (nodeMembers node)) = some node := by
  have type : Decoder.word NodeType.ofName? depth (.string node.type.name) = some node.type :=
    node.type.ofName?_name
  rw [nodeDecoder, Decoder.record, Decoder.fields?_ofMembers _ (distinct_nodeMembers node)]
  obtain ⟨id, label, _, path, exported⟩ := node
  cases path <;> cases exported <;>
    simp [nodeMembers, lookup_cons_eq_ite, Decoder.required, Decoder.defaulted, Decoder.optional,
      Decoder.string, Decoder.bool, type]

theorem edgeDecoder_ofMembers (depth : Nat) (edge : GraphEdge) :
    edgeDecoder (depth + 1) (.ofMembers (edgeMembers edge)) = some edge := by
  have type : Decoder.word EdgeType.ofName? depth (.string edge.type.name) = some edge.type :=
    edge.type.ofName?_name
  rw [edgeDecoder, Decoder.record, Decoder.fields?_ofMembers _ (distinct_edgeMembers edge)]
  simp [edgeMembers, lookup_cons_eq_ite, Decoder.required, Decoder.string, type]

/-- No key stands twice in the entry of a node, so that settling changes nothing. -/
theorem entryDecoder_nodeMembers (depth : Nat) (node : GraphNode) :
    entryDecoder (depth + 1) (.ofMembers (nodeMembers node)) =
      some (.ofMembers (nodeMembers node)) := by
  obtain ⟨id, label, type, path, exported⟩ := node
  cases path <;> cases exported <;>
    simp [entryDecoder, Document.ofMembers, nodeMembers, Document.toJson?,
      Document.membersToJson?, Document.settle, Document.settleMembers]

theorem entryDecoder_edgeMembers (depth : Nat) (edge : GraphEdge) :
    entryDecoder (depth + 1) (.ofMembers (edgeMembers edge)) =
      some (.ofMembers (edgeMembers edge)) := by
  simp [entryDecoder, Document.ofMembers, edgeMembers, Document.toJson?,
    Document.membersToJson?, Document.settle, Document.settleMembers]

theorem list_entryDecoder {α : Type} {document : α → Document} (depth : Nat)
    (reads : ∀ x, entryDecoder depth (document x) = some (document x)) (xs : List α) :
    Decoder.list entryDecoder (depth + 1) (.array (xs.map document)) = some (xs.map document) := by
  have all : entryDecoder depth ∘ document = fun x => pure (document x) := funext reads
  rw [Decoder.list, List.mapM_map, all, List.mapM_pure]
  rfl

theorem entriesDecoder_members (depth : Nat) (graph : Graph) :
    entriesDecoder (depth + 3) (.ofMembers graph.members) =
      some (graph.nodes.map fun node => .ofMembers (nodeMembers node),
        graph.edges.map fun edge => .ofMembers (edgeMembers edge)) := by
  have nodes := list_entryDecoder (depth + 1) (entryDecoder_nodeMembers depth) graph.nodes
  have edges := list_entryDecoder (depth + 1) (entryDecoder_edgeMembers depth) graph.edges
  rw [entriesDecoder, Decoder.record, Decoder.fields?_ofMembers _ graph.distinct_members]
  simp [members, lookup_cons_eq_ite, Decoder.defaulted, nodes, edges]

/-- The entries of the text of a graph, before they are put together. -/
theorem decode?_save (graph : Graph) :
    Json.decode? entriesDecoder graph.save =
      some (graph.nodes.map fun node => .ofMembers (nodeMembers node),
        graph.edges.map fun edge => .ofMembers (edgeMembers edge)) := by
  rw [Json.decode?, save, graph.spells_encode.parse?]
  exact entriesDecoder_members 124 graph

theorem foldl_addNode (taken : List GraphNode) {nodes : List GraphNode}
    (distinct : ((taken ++ nodes).map (·.id)).Nodup) :
    (nodes.map some).foldl Loaded.addNode ⟨⟨taken, []⟩, 0⟩ = ⟨⟨taken ++ nodes, []⟩, 0⟩ := by
  induction nodes generalizing taken with
  | nil => rw [List.append_nil]; rfl
  | cons node nodes ih =>
    have fresh : (Graph.mk taken []).contains node.id = false := by
      rw [Bool.eq_false_iff, ne_eq, contains_eq_true_iff]
      rintro ⟨old, member, same⟩
      rw [List.map_append, List.nodup_append] at distinct
      exact distinct.2.2 _ (List.mem_map_of_mem member) _ (List.mem_cons_self ..) same
    have added : Loaded.addNode ⟨⟨taken, []⟩, 0⟩ (some node) = ⟨⟨taken ++ [node], []⟩, 0⟩ := by
      simp [Loaded.addNode, addNode, fresh]
    rw [List.append_cons] at distinct ⊢
    rw [List.map_cons, List.foldl_cons, added, ih _ distinct]

theorem foldl_addEdge {nodes : List GraphNode} (taken : List GraphEdge) {edges : List GraphEdge}
    (joined : ∀ edge ∈ edges, (Graph.mk nodes taken).joins edge = true) :
    (edges.map some).foldl Loaded.addEdge ⟨⟨nodes, taken⟩, 0⟩ = ⟨⟨nodes, taken ++ edges⟩, 0⟩ := by
  induction edges generalizing taken with
  | nil => rw [List.append_nil]; rfl
  | cons edge edges ih =>
    obtain ⟨joins, others⟩ := List.forall_mem_cons.mp joined
    have added : Loaded.addEdge ⟨⟨nodes, taken⟩, 0⟩ (some edge) =
        ⟨⟨nodes, taken ++ [edge]⟩, 0⟩ := by
      simp [Loaded.addEdge, addEdge, joins]
    -- Whether an edge joins two nodes does not depend on the edges, so `others` still fits.
    rw [List.map_cons, List.foldl_cons, added, ih (taken ++ [edge]) others,
      List.append_assoc]
    rfl

theorem WellFormed.restore {graph : Graph} (wellFormed : graph.WellFormed) :
    restore (graph.nodes.map some) (graph.edges.map some) = ⟨graph, 0⟩ := by
  have nodes : (graph.nodes.map some).foldl Loaded.addNode ⟨Graph.empty, 0⟩ =
      ⟨⟨graph.nodes, []⟩, 0⟩ := foldl_addNode [] wellFormed.distinct
  rw [Graph.restore, nodes]
  exact foldl_addEdge [] wellFormed.joined

theorem WellFormed.load?_save {graph : Graph} (wellFormed : graph.WellFormed) :
    load? graph.save = some ⟨graph, 0⟩ := by
  have nodes : (nodeDecoder maxDepth ∘ fun node => .ofMembers (nodeMembers node)) = some :=
    funext (nodeDecoder_ofMembers 126)
  have edges : (edgeDecoder maxDepth ∘ fun edge => .ofMembers (edgeMembers edge)) = some :=
    funext (edgeDecoder_ofMembers 126)
  simp only [load?, decode?_save, Option.bind_eq_bind, Option.bind_some, List.map_map]
  rw [nodes, edges, wellFormed.restore]
  rfl

/-- Whatever was added to a graph, its text is read as the same graph, none of its entries is left
out, and the graph that was read has the same text. -/
theorem load?_save_afterAll (steps : List Step) :
    let graph := empty.afterAll steps
    ∃ loaded, load? graph.save = some loaded ∧ loaded.graph.nodes = graph.nodes ∧
      loaded.graph.edges = graph.edges ∧ loaded.quarantined = 0 ∧
      loaded.graph.save = graph.save := by
  intro graph
  have wellFormed : graph.WellFormed := WellFormed.empty.afterAll steps
  exact ⟨⟨graph, 0⟩, wellFormed.load?_save, rfl, rfl, rfl, rfl⟩

end Graph

end CodeAtlas
