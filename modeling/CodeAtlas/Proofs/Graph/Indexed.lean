import CodeAtlas.Proofs.Graph.Draft
import Mathlib.Data.List.Basic

namespace CodeAtlas

namespace Project

/-- The outline that a build goes by. A file that cannot be outlined says nothing, and one that
cannot be read or is empty is left out. -/
def outline? (project : Project) (path : String) : Option Outline :=
  match (project.read path).source path with
  | .ok source => some ((project.outline path source).toOption.getD .empty)
  | .error _ => none

/-- The files that are taken up, in the order in which their paths first occur. -/
def indexed (project : Project) (files : List String) : List (String × Outline) :=
  (files.map Path.normalize).eraseDups.filterMap fun path => (project.outline? path).map (path, ·)

theorem mem_indexed {project : Project} {files : List String} {file : String × Outline} :
    file ∈ project.indexed files ↔
      file.1 ∈ files.map Path.normalize ∧ project.outline? file.1 = some file.2 := by
  simp only [indexed, List.mem_filterMap, List.mem_eraseDups, Option.map_eq_some_iff]
  constructor
  · rintro ⟨path, member, outline, taken, rfl⟩
    exact ⟨member, taken⟩
  · rintro ⟨member, taken⟩
    exact ⟨file.1, member, file.2, taken, rfl⟩

theorem plain_indexed (project : Project) {files : List String}
    (plain : ∀ path ∈ files.map Path.normalize, ':' ∉ path.toList) :
    ∀ file ∈ project.indexed files, ':' ∉ file.1.toList :=
  fun file member => plain file.1 (mem_indexed.mp member).1

end Project

namespace Draft

theorem outlines_ofPath (project : Project) (path : String) :
    (ofPath project path).outlines = ((project.outline? path).map (path, ·)).toList := by
  unfold ofPath take Project.outline?
  rw [if_neg (by simp [empty])]
  cases (project.read path).source path with
  | error reason => rfl
  | ok source =>
    dsimp only [addSource]
    cases project.outline path source <;> rfl

end Draft

namespace Graph

variable {graph : Graph}

theorem outlines_draft (project : Project) (files : List String) :
    (draft project files).outlines = project.indexed files := by
  rw [draft_eq, Draft.ofPaths, Project.indexed, List.filterMap_eq_flatMap_toList]
  exact congrArg (List.flatMap · _) (funext (Draft.outlines_ofPath project))

theorem graph_draft (project : Project) (files : List String) :
    (draft project files).graph = ofFiles (project.indexed files) := by
  rw [← outlines_draft, draft_eq]
  rfl

theorem contains_addSymbol (graph : Graph) (path : String) (symbol : Declared) (id : String) :
    (graph.addSymbol path symbol).contains id = true ↔
      graph.contains id = true ∨ (GraphNode.ofSymbol path symbol).id = id := by
  rw [← contains_addNode]
  unfold addSymbol
  dsimp only
  split
  · next taken => rw [addNode, if_pos taken]
  · rw [contains_addEdge]

theorem contains_addFile (graph : Graph) (path : String) (outline : Outline) (id : String) :
    (graph.addFile path outline).contains id = true ↔
      graph.contains id = true ∨ GraphNode.fileId path = id ∨
        ∃ symbol ∈ outline.symbols, (GraphNode.ofSymbol path symbol).id = id := by
  have declared : ∀ (symbols : List Declared) (graph : Graph),
      (symbols.foldl (addSymbol path) graph).contains id = true ↔
        graph.contains id = true ∨
          ∃ symbol ∈ symbols, (GraphNode.ofSymbol path symbol).id = id := by
    intro symbols
    induction symbols with
    | nil => simp
    | cons symbol symbols ih =>
      intro graph
      rw [List.foldl_cons, ih, contains_addSymbol, or_assoc]
      simp only [List.mem_cons, exists_eq_or_imp]
  rw [addFile, declared, contains_addNode, or_assoc]
  rfl

/-- The ids of a graph are those of its files and of what is declared in them. -/
theorem contains_ofFiles {files : List (String × Outline)} {id : String} :
    (ofFiles files).contains id = true ↔
      ∃ file ∈ files, GraphNode.fileId file.1 = id ∨
        ∃ symbol ∈ file.2.symbols, (GraphNode.ofSymbol file.1 symbol).id = id := by
  have added : ∀ graph : Graph,
      (files.foldl (fun graph file => graph.addFile file.1 file.2) graph).contains id = true ↔
        graph.contains id = true ∨ ∃ file ∈ files, GraphNode.fileId file.1 = id ∨
          ∃ symbol ∈ file.2.symbols, (GraphNode.ofSymbol file.1 symbol).id = id := by
    induction files with
    | nil => simp
    | cons file files ih =>
      intro graph
      rw [List.foldl_cons, ih, contains_addFile, or_assoc]
      simp only [List.mem_cons, exists_eq_or_imp]
  rw [ofFiles, added]
  exact or_iff_right (by simp [contains, empty])

theorem contains_fileId_ofFiles {files : List (String × Outline)} {path : String} :
    (ofFiles files).contains (GraphNode.fileId path) = true ↔ path ∈ files.map (·.1) := by
  rw [contains_ofFiles, List.mem_map]
  refine exists_congr fun file => and_congr_right fun _ => ?_
  constructor
  · rintro (same | ⟨symbol, _, same⟩)
    · exact GraphNode.fileId_injective same
    · exact absurd same GraphNode.symbolId_ne_fileId
  · rintro rfl
    exact .inl rfl

theorem mem_addSymbol {path : String} {symbol : Declared} {node : GraphNode}
    (member : node ∈ (graph.addSymbol path symbol).nodes) :
    node ∈ graph.nodes ∨ node = .ofSymbol path symbol := by
  unfold addSymbol at member
  dsimp only at member
  split at member
  · exact .inl member
  · rw [nodes_addEdge] at member
    exact mem_addNode member

theorem mem_addFile {path : String} {outline : Outline} {node : GraphNode}
    (member : node ∈ (graph.addFile path outline).nodes) :
    node ∈ graph.nodes ∨ node = .ofFile path ∨
      ∃ symbol ∈ outline.symbols, node = .ofSymbol path symbol := by
  have origin := List.foldlRecOn
    (motive := fun (grown : Graph) => ∀ node ∈ grown.nodes, node ∈ graph.nodes ∨
      node = .ofFile path ∨ ∃ symbol ∈ outline.symbols, node = .ofSymbol path symbol)
    outline.symbols (addSymbol path) (b := graph.addNode (.ofFile path))
    (fun node member => (mem_addNode member).imp_right .inl) ?_
  · exact origin node member
  · intro between ih symbol declared node member
    rcases mem_addSymbol member with old | rfl
    · exact ih node old
    · exact .inr (.inr ⟨symbol, declared, rfl⟩)

/-- Every node is that of a file or of something that is declared in it. -/
theorem mem_ofFiles {files : List (String × Outline)} {node : GraphNode}
    (member : node ∈ (ofFiles files).nodes) :
    ∃ file ∈ files, node = .ofFile file.1 ∨
      ∃ symbol ∈ file.2.symbols, node = .ofSymbol file.1 symbol := by
  have origin := List.foldlRecOn
    (motive := fun (grown : Graph) => ∀ node ∈ grown.nodes, ∃ file ∈ files,
      node = .ofFile file.1 ∨ ∃ symbol ∈ file.2.symbols, node = .ofSymbol file.1 symbol)
    files (fun graph file => graph.addFile file.1 file.2) (b := empty) (by simp [empty]) ?_
  · exact origin node member
  · intro between ih file listed node member
    rcases mem_addFile member with old | new
    · exact ih node old
    · exact ⟨file, listed, new⟩

theorem node?_congr {other : Graph} (same : graph.nodes = other.nodes) (id : String) :
    graph.node? id = other.node? id := by
  rw [node?, node?, same]

theorem id_of_node? {id : String} {node : GraphNode} (found : graph.node? id = some node) :
    node ∈ graph.nodes ∧ node.id = id :=
  ⟨List.mem_of_find?_eq_some found, by simpa using List.find?_some found⟩

theorem exists_node? {id : String} (known : graph.contains id = true) :
    ∃ node, graph.node? id = some node := by
  rw [contains_eq_true_iff] at known
  exact Option.isSome_iff_exists.mp (List.find?_isSome.mpr (by simpa using known))

/-- A file id is that of a file alone. -/
theorem node?_fileId {files : List (String × Outline)} {path : String}
    (known : (ofFiles files).contains (GraphNode.fileId path) = true) :
    (ofFiles files).node? (GraphNode.fileId path) = some (.ofFile path) := by
  obtain ⟨node, found⟩ := exists_node? known
  obtain ⟨member, same⟩ := id_of_node? found
  rw [found]
  obtain ⟨file, _, rfl | ⟨symbol, _, rfl⟩⟩ := mem_ofFiles member
  · rw [← GraphNode.fileId_injective same]
  · exact absurd same GraphNode.symbolId_ne_fileId

/-- The id of a symbol tells its kind and its file. -/
theorem node?_symbolId {files : List (String × Outline)} {kind : SymbolKind} {path name : String}
    (plain : ∀ file ∈ files, ':' ∉ file.1.toList) (plain' : ':' ∉ path.toList)
    (known : (ofFiles files).contains (GraphNode.symbolId kind path name) = true) :
    ∃ node, (ofFiles files).node? (GraphNode.symbolId kind path name) = some node ∧
      node.type = .symbol kind ∧ node.path = some path := by
  obtain ⟨node, found⟩ := exists_node? known
  obtain ⟨member, same⟩ := id_of_node? found
  refine ⟨node, found, ?_⟩
  obtain ⟨file, listed, rfl | ⟨symbol, _, rfl⟩⟩ := mem_ofFiles member
  · exact absurd same.symm GraphNode.symbolId_ne_fileId
  · obtain ⟨rfl, rfl, _⟩ := GraphNode.symbolId_injective (plain file listed) plain' same
    exact ⟨rfl, rfl⟩

end Graph

end CodeAtlas
