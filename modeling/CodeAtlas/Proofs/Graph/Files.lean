import CodeAtlas.Graph.Build
import CodeAtlas.Proofs.Graph.NodeIds

namespace CodeAtlas.Graph

/-- All nodes and relations of one graph and then those of another. -/
def append (first second : Graph) : Graph :=
  ⟨first.nodes ++ second.nodes, first.edges ++ second.edges⟩

instance : Append Graph := ⟨append⟩

variable {graph rest : Graph}

theorem append_empty (graph : Graph) : graph ++ empty = graph := by
  change Graph.mk (graph.nodes ++ []) (graph.edges ++ []) = graph
  rw [List.append_nil, List.append_nil]

theorem append_assoc (first second third : Graph) :
    first ++ second ++ third = first ++ (second ++ third) := by
  change Graph.mk (first.nodes ++ second.nodes ++ third.nodes)
    (first.edges ++ second.edges ++ third.edges) = _
  rw [List.append_assoc, List.append_assoc]
  rfl

theorem contains_append (graph rest : Graph) (id : String) :
    (graph ++ rest).contains id = (graph.contains id || rest.contains id) :=
  List.any_append

theorem contains_eq_true_iff {id : String} :
    graph.contains id = true ↔ ∃ node ∈ graph.nodes, node.id = id := by
  simp only [contains, List.any_eq_true, beq_iff_eq]

/-- No node has the id of the file or of a symbol in it. -/
def Lacks (graph : Graph) (path : String) : Prop :=
  ∀ id, GraphNode.IsIdOf path id → graph.contains id = false

theorem Lacks.fileId {path : String} (lacks : graph.Lacks path) :
    graph.contains (GraphNode.fileId path) = false :=
  lacks _ (.inl rfl)

theorem Lacks.ofSymbol {path : String} (lacks : graph.Lacks path) (symbol : Declared) :
    graph.contains (GraphNode.ofSymbol path symbol).id = false :=
  lacks _ (.inr ⟨symbol.kind, symbol.name, rfl⟩)

theorem append_addNode {node : GraphNode} (absent : graph.contains node.id = false) :
    (graph ++ rest).addNode node = graph ++ rest.addNode node := by
  unfold addNode
  rw [contains_append, absent, Bool.false_or]
  split
  · rfl
  · exact congrArg (Graph.mk · _) (List.append_assoc ..)

theorem append_addEdge {edge : GraphEdge} (source : graph.contains edge.source = false)
    (target : graph.contains edge.target = false) :
    (graph ++ rest).addEdge edge = graph ++ rest.addEdge edge := by
  unfold addEdge joins
  rw [contains_append, contains_append, source, target, Bool.false_or, Bool.false_or]
  split
  · exact congrArg (Graph.mk _) (List.append_assoc ..)
  · rfl

theorem append_addSymbol {path : String} (lacks : graph.Lacks path) (symbol : Declared) :
    (graph ++ rest).addSymbol path symbol = graph ++ rest.addSymbol path symbol := by
  unfold addSymbol
  dsimp only
  rw [contains_append, lacks.ofSymbol symbol, Bool.false_or]
  split
  · rfl
  · rw [append_addNode (lacks.ofSymbol symbol), append_addEdge lacks.fileId (lacks.ofSymbol symbol)]

theorem append_addFile {path : String} (lacks : graph.Lacks path) (outline : Outline) :
    (graph ++ rest).addFile path outline = graph ++ rest.addFile path outline := by
  unfold addFile
  rw [append_addNode lacks.fileId]
  exact List.foldl_hom (graph ++ ·) fun _ symbol => append_addSymbol lacks symbol

theorem contains_addNode (graph : Graph) (node : GraphNode) (id : String) :
    (graph.addNode node).contains id = true ↔ graph.contains id = true ∨ node.id = id := by
  unfold addNode
  split
  · next taken =>
    refine (or_iff_left_of_imp ?_).symm
    rintro rfl
    exact taken
  · simp [contains]

theorem mem_addNode {node added : GraphNode} (member : node ∈ (graph.addNode added).nodes) :
    node ∈ graph.nodes ∨ node = added := by
  unfold addNode at member
  split at member
  · exact .inl member
  · exact (List.mem_append.mp member).imp_right List.mem_singleton.mp

theorem edges_addNode (graph : Graph) (node : GraphNode) :
    (graph.addNode node).edges = graph.edges := by
  unfold addNode
  split <;> rfl

theorem nodes_addEdge (graph : Graph) (edge : GraphEdge) :
    (graph.addEdge edge).nodes = graph.nodes := by
  unfold addEdge
  split <;> rfl

theorem contains_addEdge (graph : Graph) (edge : GraphEdge) (id : String) :
    (graph.addEdge edge).contains id = graph.contains id := by
  rw [contains, nodes_addEdge]
  rfl

/-- What is new belongs to the file. -/
structure GrowsBy (path : String) (before after : Graph) : Prop where
  nodes : ∀ node ∈ after.nodes, node ∈ before.nodes ∨ GraphNode.IsIdOf path node.id
  edges : ∀ edge ∈ after.edges, edge ∈ before.edges ∨ edge.type = .contains

namespace GrowsBy

variable {path : String} {first second third : Graph}

theorem refl (path : String) (graph : Graph) : GrowsBy path graph graph :=
  ⟨fun _ => .inl, fun _ => .inl⟩

theorem trans (head : GrowsBy path first second) (tail : GrowsBy path second third) :
    GrowsBy path first third where
  nodes node member := (tail.nodes node member).elim (head.nodes node) .inr
  edges edge member := (tail.edges edge member).elim (head.edges edge) .inr

/-- A file that is lacking stays so when another file is added. -/
theorem lacks {other : String} (grows : GrowsBy path first second) (lacks : first.Lacks other)
    (plain : ':' ∉ path.toList) (plain' : ':' ∉ other.toList) (different : path ≠ other) :
    second.Lacks other := by
  intro id ofOther
  rw [Bool.eq_false_iff, ne_eq, contains_eq_true_iff]
  rintro ⟨node, member, rfl⟩
  rcases grows.nodes node member with old | ofPath
  · have absent := lacks node.id ofOther
    rw [contains_eq_true_iff.mpr ⟨node, old, rfl⟩] at absent
    cases absent
  · exact different (ofPath.path_unique plain plain' ofOther)

end GrowsBy

theorem addNode_growsBy {path : String} {node : GraphNode} (own : GraphNode.IsIdOf path node.id) :
    GrowsBy path graph (graph.addNode node) := by
  refine ⟨fun other member => (mem_addNode member).imp_right ?_, fun edge member => .inl ?_⟩
  · rintro rfl
    exact own
  · rwa [edges_addNode] at member

theorem addEdge_growsBy (path : String) {edge : GraphEdge} (contains : edge.type = .contains) :
    GrowsBy path graph (graph.addEdge edge) := by
  unfold addEdge
  split
  · refine ⟨fun _ => .inl, fun other member => ?_⟩
    rcases List.mem_append.mp member with old | new
    · exact .inl old
    · rw [List.mem_singleton.mp new]
      exact .inr contains
  · exact .refl path graph

theorem addSymbol_growsBy (graph : Graph) (path : String) (symbol : Declared) :
    GrowsBy path graph (graph.addSymbol path symbol) := by
  unfold addSymbol
  dsimp only
  split
  · exact .refl path graph
  · exact (addNode_growsBy (.inr ⟨symbol.kind, symbol.name, rfl⟩)).trans (addEdge_growsBy path rfl)

theorem addFile_growsBy (graph : Graph) (path : String) (outline : Outline) :
    GrowsBy path graph (graph.addFile path outline) := by
  have named : GrowsBy path graph (graph.addNode (.ofFile path)) := addNode_growsBy (.inl rfl)
  exact List.foldlRecOn outline.symbols (addSymbol path) named fun between grows symbol _ =>
    grows.trans (between.addSymbol_growsBy path symbol)

/-- The graph of a file alone. -/
def ofFile (file : String × Outline) : Graph := empty.addFile file.1 file.2

/-- The graph of files, added one after the other. -/
def ofFiles (files : List (String × Outline)) : Graph :=
  files.foldl (fun graph file => graph.addFile file.1 file.2) empty

theorem foldl_addFile (files : List (String × Outline))
    (plain : ∀ file ∈ files, ':' ∉ file.1.toList) (distinct : (files.map (·.1)).Nodup)
    (lacks : ∀ file ∈ files, graph.Lacks file.1) :
    files.foldl (fun graph file => graph.addFile file.1 file.2) graph =
      graph ++ ⟨files.flatMap (ofFile · |>.nodes), files.flatMap (ofFile · |>.edges)⟩ := by
  induction files generalizing graph with
  | nil => exact graph.append_empty.symm
  | cons file files ih =>
    obtain ⟨fresh, distinct⟩ := List.nodup_cons.mp distinct
    have added : (graph ++ empty).addFile file.1 file.2 = graph ++ ofFile file :=
      append_addFile (lacks file (List.mem_cons_self ..)) file.2
    rw [append_empty] at added
    rw [List.foldl_cons, added, ih]
    · exact append_assoc ..
    · exact fun other member => plain other (List.mem_cons_of_mem _ member)
    · exact distinct
    · intro other member
      rw [← added]
      have later := List.mem_cons_of_mem file member
      refine (graph.addFile_growsBy file.1 file.2).lacks (lacks other later)
        (plain file (List.mem_cons_self ..)) (plain other later) ?_
      intro same
      exact fresh (List.mem_map.mpr ⟨other, member, same.symm⟩)

/-- Files without a colon in their paths do not get in each other's way. -/
theorem ofFiles_eq {files : List (String × Outline)}
    (plain : ∀ file ∈ files, ':' ∉ file.1.toList) (distinct : (files.map (·.1)).Nodup) :
    ofFiles files = ⟨files.flatMap (ofFile · |>.nodes), files.flatMap (ofFile · |>.edges)⟩ :=
  foldl_addFile files plain distinct fun _ _ _ _ => rfl

theorem type_of_mem_ofFiles (files : List (String × Outline)) :
    ∀ edge ∈ (ofFiles files).edges, edge.type = .contains := by
  refine List.foldlRecOn
    (motive := fun (graph : Graph) => ∀ edge ∈ graph.edges, edge.type = .contains) files _ ?_ ?_
  · intro edge none
    cases none
  · intro graph old file _ edge member
    exact ((graph.addFile_growsBy file.1 file.2).edges edge member).elim (old edge) id

end CodeAtlas.Graph
