import Mathlib.Data.List.Induction
import CodeAtlas.Proofs.Graph.Built
import CodeAtlas.Proofs.Graph.Links

namespace CodeAtlas

/-- The relation of a symbol to the file that it says it is declared in. -/
def GraphNode.ownership? (node : GraphNode) : Option GraphEdge :=
  match node.type, node.path with
  | .symbol _, some path => some ⟨GraphNode.fileId path, node.id, .contains⟩
  | _, _ => none

theorem GraphNode.target_of_ownership? {node : GraphNode} {edge : GraphEdge}
    (owned : node.ownership? = some edge) : edge.target = node.id := by
  unfold ownership? at owned
  split at owned
  · cases owned
    rfl
  · cases owned

namespace Graph

variable {graph : Graph} {path : String}

theorem nodes_addNode (node : GraphNode) (fresh : graph.contains node.id = false) :
    (graph.addNode node).nodes = graph.nodes ++ [node] := by
  simp [addNode, fresh]

/-- The symbols are related to their files, each once and in the order in which they came in, and
nothing else is. -/
def IsOwned (graph : Graph) : Prop :=
  graph.edgesOf .contains = graph.nodes.filterMap GraphNode.ownership?

theorem IsOwned.addFileNode (owned : graph.IsOwned) (path : String) :
    (graph.addNode (.ofFile path)).IsOwned := by
  unfold addNode
  split
  · exact owned
  · unfold IsOwned at owned ⊢
    rw [List.filterMap_append, ← owned]
    exact (List.append_nil _).symm

theorem IsOwned.addSymbol (owned : graph.IsOwned)
    (known : graph.contains (GraphNode.fileId path) = true) (symbol : Declared) :
    (graph.addSymbol path symbol).IsOwned := by
  unfold Graph.addSymbol
  dsimp only
  split
  · exact owned
  · next fresh =>
    have joined : (graph.addNode (.ofSymbol path symbol)).joins
        ⟨GraphNode.fileId path, (GraphNode.ofSymbol path symbol).id, .contains⟩ = true := by
      rw [joins, Bool.and_eq_true, contains_addNode, contains_addNode]
      exact ⟨.inl known, .inr rfl⟩
    have edges := edgesOf_addEdge_self joined
    unfold IsOwned at owned ⊢
    rw [edges, nodes_addEdge, nodes_addNode _ (Bool.eq_false_iff.mpr fresh), edgesOf, edges_addNode,
      ← edgesOf, owned, List.filterMap_append]
    rfl

theorem IsOwned.addFile (owned : graph.IsOwned) (path : String) (outline : Outline) :
    (graph.addFile path outline).IsOwned := by
  have named : (graph.addNode (.ofFile path)).contains (GraphNode.fileId path) = true :=
    (contains_addNode ..).mpr (.inr rfl)
  exact (List.foldlRecOn (motive := fun graph : Graph =>
      graph.contains (GraphNode.fileId path) = true ∧ graph.IsOwned) outline.symbols
    (Graph.addSymbol path) ⟨named, owned.addFileNode path⟩ fun _ sofar symbol _ =>
      ⟨(contains_addSymbol ..).mpr (.inl sofar.1), sofar.2.addSymbol sofar.1 symbol⟩).2

theorem isOwned_ofFiles (files : List (String × Outline)) : (ofFiles files).IsOwned :=
  List.foldlRecOn (motive := IsOwned) files _ rfl fun _ sofar file _ => sofar.addFile file.1 file.2

/-- Of nodes whose ids differ, one has the id of a node. -/
theorem filter_id_eq {nodes : List GraphNode} (distinct : (nodes.map (·.id)).Nodup)
    {node : GraphNode} (member : node ∈ nodes) : nodes.filter (·.id == node.id) = [node] := by
  induction nodes with
  | nil => cases member
  | cons first nodes ih =>
    obtain ⟨fresh, distinct⟩ := List.nodup_cons.mp distinct
    rcases List.mem_cons.mp member with rfl | later
    · have others : nodes.filter (·.id == node.id) = [] := by
        rw [List.filter_eq_nil_iff]
        intro other listed same
        exact fresh (List.mem_map.mpr ⟨other, listed, beq_iff_eq.mp same⟩)
      rw [List.filter_cons_of_pos (by simp), others]
    · have other : (first.id == node.id) = false := by
        rw [beq_eq_false_iff_ne]
        intro same
        exact fresh (List.mem_map.mpr ⟨node, later, same.symm⟩)
      rw [List.filter_cons_of_neg (by rw [other]; decide), ih distinct later]

/-- The only relation of a node to a file it is in is its own. -/
theorem IsOwned.filter_target (owned : graph.IsOwned) (distinct : (graph.nodes.map (·.id)).Nodup)
    {node : GraphNode} (member : node ∈ graph.nodes) :
    (graph.edgesOf .contains).filter (·.target == node.id) = node.ownership?.toList := by
  have own (other : GraphNode) : (other.ownership?).filter (·.target == node.id) =
      if other.id == node.id then other.ownership? else none := by
    cases edge : other.ownership? with
    | none => simp
    | some edge => simp [Option.filter, GraphNode.target_of_ownership? edge]
  rw [owned, List.filter_filterMap]
  simp only [own]
  rw [← List.filterMap_filter, filter_id_eq distinct member]
  cases edge : node.ownership? <;> simp [edge]

theorem filter_isFile_addFile (graph : Graph) (path : String) (outline : Outline)
    (fresh : graph.contains (GraphNode.fileId path) = false) :
    (graph.addFile path outline).nodes.filter (·.type == .file) =
      graph.nodes.filter (·.type == .file) ++ [.ofFile path] := by
  have named : (graph.addNode (.ofFile path)).nodes.filter (·.type == .file) =
      graph.nodes.filter (·.type == .file) ++ [.ofFile path] := by
    rw [nodes_addNode (.ofFile path) fresh, List.filter_append]
    rfl
  refine List.foldlRecOn (motive := fun grown : Graph => grown.nodes.filter (·.type == .file) = _)
    outline.symbols (addSymbol path) named fun between sofar symbol _ => ?_
  rw [← sofar]
  unfold addSymbol
  dsimp only
  split
  · rfl
  · next new =>
    rw [nodes_addEdge, nodes_addNode _ (Bool.eq_false_iff.mpr new), List.filter_append]
    exact List.append_nil _

/-- The files of a graph are those that were added, in this order. -/
theorem filter_isFile_ofFiles {files : List (String × Outline)}
    (distinct : (files.map (·.1)).Nodup) :
    (ofFiles files).nodes.filter (·.type == .file) = files.map (GraphNode.ofFile ·.1) := by
  induction files using List.reverseRecOn with
  | nil => rfl
  | append_singleton files file ih =>
    rw [List.map_append, List.nodup_append] at distinct
    have fresh : (ofFiles files).contains (GraphNode.fileId file.1) = false := by
      rw [Bool.eq_false_iff, ne_eq, contains_fileId_ofFiles]
      exact fun listed => distinct.2.2 _ listed _ (List.mem_singleton.mpr rfl) rfl
    have added := filter_isFile_addFile (ofFiles files) file.1 file.2 fresh
    rw [ih distinct.1] at added
    rw [ofFiles, List.foldl_append, List.map_append]
    exact added

end Graph

namespace Linking

theorem addImport_contains (linking : Linking) (path : String) (binding : ImportBinding) :
    (linking.addImport path binding).graph.edgesOf .contains = linking.graph.edgesOf .contains := by
  unfold addImport
  dsimp only
  split
  · rfl
  · split
    · rfl
    · exact Graph.edgesOf_addEdge_of_ne nofun

theorem addCall_contains (linking : Linking) (path : String) (call : CallSite) :
    (linking.addCall path call).graph.edgesOf .contains = linking.graph.edgesOf .contains := by
  unfold addCall
  dsimp only
  split
  · exact Graph.edgesOf_addEdge_of_ne nofun
  · rfl

theorem addOutline_contains (linking : Linking) (file : String × Outline) :
    (linking.addOutline file).graph.edgesOf .contains = linking.graph.edgesOf .contains := by
  unfold addOutline
  refine List.foldlRecOn (motive := fun linked : Linking =>
    linked.graph.edgesOf .contains = linking.graph.edgesOf .contains) _ _ ?_
    fun between sofar call _ => (between.addCall_contains file.1 call).trans sofar
  exact List.foldlRecOn (motive := fun linked : Linking =>
    linked.graph.edgesOf .contains = linking.graph.edgesOf .contains) _ _ rfl
    fun between sofar binding _ => (between.addImport_contains file.1 binding).trans sofar

end Linking

namespace Graph

theorem nodes_build (project : Project) (files : List String) :
    (build project files).1.nodes = (ofFiles (project.indexed files)).nodes :=
  (accounts_link project files).nodes

/-- Linking relates no symbol to a file. -/
theorem isOwned_build (project : Project) (files : List String) :
    (build project files).1.IsOwned := by
  have linked : (build project files).1.edgesOf .contains =
      (draft project files).graph.edgesOf .contains :=
    List.foldlRecOn (motive := fun linked : Linking =>
        linked.graph.edgesOf .contains = (draft project files).graph.edgesOf .contains)
      _ _ rfl fun between sofar file _ => (between.addOutline_contains file).trans sofar
  rw [IsOwned, linked, nodes_build, graph_draft]
  exact isOwned_ofFiles _

theorem contains_fileId_build {project : Project} {files : List String} {path : String} :
    (build project files).1.contains (GraphNode.fileId path) = true ↔
      path ∈ (project.indexed files).map (·.1) := by
  rw [contains, nodes_build]
  exact contains_fileId_ofFiles

end Graph

namespace Project

variable {project : Project} {files : List String}

theorem paths_indexed (project : Project) (files : List String) :
    (project.indexed files).map (·.1) =
      (files.map Path.normalize).eraseDups.filter fun path => (project.outline? path).isSome := by
  rw [indexed, List.map_filterMap, ← List.filterMap_eq_filter]
  congr 1
  funext path
  cases outlined : project.outline? path <;> simp [Option.guard, outlined]

theorem nodup_indexed (project : Project) (files : List String) :
    ((project.indexed files).map (·.1)).Nodup := by
  rw [paths_indexed]
  exact (Graph.nodup_paths files).filter _

theorem mem_paths_indexed {path : String} :
    path ∈ (project.indexed files).map (·.1) ↔
      path ∈ files.map Path.normalize ∧ (project.outline? path).isSome := by
  rw [paths_indexed, List.mem_filter, List.mem_eraseDups]

end Project

namespace Draft

variable {project : Project} {path : String}

theorem skipped_ofPath (project : Project) (path : String) :
    (ofPath project path).skipped.map (·.path) =
      if (project.outline? path).isNone then [path] else [] := by
  unfold ofPath take Project.outline?
  rw [if_neg (by simp [empty])]
  cases (project.read path).source path with
  | error reason => rfl
  | ok source =>
    dsimp only [addSource]
    cases project.outline path source <;> rfl

theorem diagnostics_ofPath {diagnostic : Diagnostic}
    (stated : diagnostic ∈ (ofPath project path).diagnostics) :
    diagnostic.path = path ∧ (project.outline? path).isSome := by
  unfold ofPath take at stated
  rw [if_neg (by simp [empty])] at stated
  unfold Project.outline?
  cases read : (project.read path).source path with
  | error reason =>
    rw [read] at stated
    cases stated
  | ok source =>
    rw [read] at stated
    dsimp only [addSource] at stated
    cases outlined : project.outline path source with
    | ok outline =>
      rw [outlined] at stated
      cases stated
    | error error =>
      rw [outlined] at stated
      obtain rfl := List.mem_singleton.mp stated
      exact ⟨rfl, rfl⟩

/-- The paths that are left out are those that the build does not go by. -/
theorem skipped_draft (project : Project) (files : List String) :
    (Graph.draft project files).skipped.map (·.path) =
      (files.map Path.normalize).eraseDups.filter fun path => (project.outline? path).isNone := by
  rw [Graph.draft_eq, ofPaths, List.map_flatMap]
  simp only [skipped_ofPath]
  induction (files.map Path.normalize).eraseDups with
  | nil => rfl
  | cons path paths ih =>
    rw [List.flatMap_cons, ih, List.filter_cons]
    split <;> rfl

theorem mem_diagnostics_draft {files : List String} {diagnostic : Diagnostic}
    (stated : diagnostic ∈ (Graph.draft project files).diagnostics) :
    diagnostic.path ∈ (project.indexed files).map (·.1) := by
  rw [Graph.draft_eq, ofPaths] at stated
  obtain ⟨path, listed, own⟩ := List.mem_flatMap.mp stated
  obtain ⟨rfl, taken⟩ := diagnostics_ofPath own
  exact Project.mem_paths_indexed.mpr ⟨List.mem_eraseDups.mp listed, taken⟩

end Draft

namespace Graph

variable {project : Project} {files : List String}

/-- A file that is taken up is a node of the graph, under its id. -/
theorem node?_fileId_build {path : String} (taken : path ∈ (project.indexed files).map (·.1)) :
    (build project files).1.node? (GraphNode.fileId path) = some (.ofFile path) := by
  rw [node?_congr (nodes_build project files)]
  exact node?_fileId (contains_fileId_ofFiles.mpr taken)

/-- A path that is listed is one of the graph or one of those that are left out. -/
theorem indexed_or_skipped {path : String} (listed : path ∈ files.map Path.normalize) :
    let built := build project files
    (built.1.node? (GraphNode.fileId path) = some (.ofFile path) ∧
        path ∉ built.2.skipped.map (·.path)) ∨
      (built.1.contains (GraphNode.fileId path) = false ∧
        (built.2.skipped.map (·.path)).count path = 1) := by
  intro built
  have skipped : built.2.skipped.map (·.path) = _ := Draft.skipped_draft project files
  rw [skipped]
  cases outlined : project.outline? path with
  | some outline =>
    refine .inl ⟨node?_fileId_build (Project.mem_paths_indexed.mpr ⟨listed, ?_⟩), ?_⟩
    · rw [outlined]
      rfl
    · simp [outlined]
  | none =>
    refine .inr ⟨?_, ?_⟩
    · rw [Bool.eq_false_iff, ne_eq, contains_fileId_build, Project.mem_paths_indexed]
      simp [outlined]
    · rw [List.count_eq_one_of_mem ((nodup_paths files).filter _)]
      simp [outlined, listed]

/-- Only files and symbols are nodes, and a symbol is in a file of the graph. -/
theorem mem_build {node : GraphNode} (member : node ∈ (build project files).1.nodes) :
    ∃ path ∈ (project.indexed files).map (·.1), node = .ofFile path ∨
      ∃ symbol, node = .ofSymbol path symbol := by
  rw [nodes_build] at member
  obtain ⟨file, taken, origin⟩ := mem_ofFiles member
  refine ⟨file.1, List.mem_map_of_mem taken, origin.imp_right ?_⟩
  rintro ⟨symbol, _, rfl⟩
  exact ⟨symbol, rfl⟩

end Graph

/-- A build that nobody cancels makes each listed path a file of the graph or leaves it out once. A
symbol is related to its own file and to no other, and no file is contained in anything. -/
theorem Builder.build_ownership (builder : Builder) (project : Project) {files : List String}
    {cancelled : Nat → Bool} (goes : ∀ number < files.length, cancelled number = false) :
    ∃ built, (builder.build project cancelled files).1 = .ok built ∧
      (∀ path ∈ files.map Path.normalize,
        (built.graph.node? (GraphNode.fileId path) = some (.ofFile path) ∧
            path ∉ built.report.skipped.map (·.path)) ∨
          (built.graph.contains (GraphNode.fileId path) = false ∧
            (built.report.skipped.map (·.path)).count path = 1)) ∧
      (∀ skipped ∈ built.report.skipped, skipped.path ∈ files.map Path.normalize) ∧
      built.report.filesIndexed = built.graph.nodes.countP (·.type == .file) ∧
      (built.graph.nodes.map (·.id)).Nodup ∧
      (∀ diagnostic ∈ built.report.diagnostics,
        built.graph.node? (GraphNode.fileId diagnostic.path) = some (.ofFile diagnostic.path)) ∧
      (∀ node ∈ built.graph.nodes, node.type ≠ .file → ∃ owner, node.path = some owner ∧
        built.graph.node? (GraphNode.fileId owner) = some (.ofFile owner) ∧
        (built.graph.edgesOf .contains).filter (·.target == node.id) =
          [⟨GraphNode.fileId owner, node.id, .contains⟩]) ∧
      ∀ edge ∈ built.graph.edgesOf .contains,
        ∃ node ∈ built.graph.nodes, node.type ≠ .file ∧ edge.target = node.id := by
  obtain ⟨written, ran⟩ := builder.build_of_not_cancelled project goes
  have owned := Graph.isOwned_build project files
  have distinct := (Graph.build_wellFormed project files).distinct
  refine ⟨_, ran, fun path listed => Graph.indexed_or_skipped listed, ?_, ?_, distinct, ?_, ?_, ?_⟩
  · intro skipped left
    have path : skipped.path ∈ (Graph.draft project files).skipped.map (·.path) :=
      List.mem_map_of_mem left
    rw [Draft.skipped_draft] at path
    exact List.mem_eraseDups.mp (List.mem_filter.mp path).1
  · have indexed : (Graph.build project files).2.filesIndexed =
        (Graph.draft project files).outlines.length := rfl
    dsimp only
    rw [indexed, List.countP_eq_length_filter, Graph.nodes_build, Graph.outlines_draft,
      Graph.filter_isFile_ofFiles (Project.nodup_indexed project files), List.length_map]
  · exact fun diagnostic stated => Graph.node?_fileId_build (Draft.mem_diagnostics_draft stated)
  · intro node member symbol
    have own := owned.filter_target distinct member
    obtain ⟨path, taken, rfl | ⟨_, rfl⟩⟩ := Graph.mem_build member
    · exact absurd rfl symbol
    · exact ⟨path, rfl, Graph.node?_fileId_build taken, own⟩
  · intro edge member
    dsimp only at member
    rw [owned, List.mem_filterMap] at member
    obtain ⟨node, listed, made⟩ := member
    refine ⟨node, listed, ?_, GraphNode.target_of_ownership? made⟩
    intro file
    rw [GraphNode.ownership?, file] at made
    cases made

/-- Two spellings of a path are one file. A symbol that is declared twice, or that has the id of a
symbol of an earlier file, is related to the first file alone. One path is missing, and one is a file
whose text cannot be outlined. -/
theorem Builder.build_ownership_same_ids :
    let first : Outline :=
      ⟨[⟨"b:c", .function, 1, 1, false⟩, ⟨"b:c", .function, 2, 2, true⟩], [], []⟩
    let second : Outline := ⟨[⟨"c", .function, 1, 1, true⟩, ⟨"d", .classDecl, 2, 2, true⟩], [], []⟩
    let project : Project :=
      ⟨fun path => if path = "gone" then .missing else .text ".",
        fun path _ => if path = "bad" then .error .unsupported
          else .ok (if path = "a" then first else second)⟩
    let files := ["a", "./a", "a:b", "gone", "bad", "./gone"]
    ∃ built, ((new .unset).build project (fun _ => false) files).1 = .ok built ∧
      built.report.filesIndexed = 3 ∧
      built.graph.contains "file:gone" = false ∧
      (built.report.skipped.map (·.path)).count "gone" = 1 ∧
      built.graph.node? "file:bad" = some (.ofFile "bad") ∧
      (built.graph.edgesOf .contains).filter (·.target == "function:a:b:c") =
        [⟨"file:a", "function:a:b:c", .contains⟩] ∧
      (built.graph.edgesOf .contains).length = 2 := by
  intro first second project files
  let never : Nat → Bool := fun _ => false
  have goes : ∀ number < files.length, never number = false := fun _ _ => rfl
  obtain ⟨built, ran, accounted, _, counted, _, diagnosed, owned, _⟩ :=
    build_ownership (new .unset) project goes
  have seen : ((new .unset).build project never files).1.toOption.map (fun built =>
      (built.graph.node? "function:a:b:c", built.graph.node? "file:gone",
        built.report.diagnostics.map (·.path), built.graph.nodes.countP (·.type == .file),
        (built.graph.edgesOf .contains).length)) =
      some (some (.ofSymbol "a" ⟨"b:c", .function, 1, 1, false⟩), none, ["bad"], 3, 2) := by
    decide +kernel
  rw [ran] at seen
  simp only [Except.toOption, Option.map_some, Option.some.injEq, Prod.mk.injEq] at seen
  obtain ⟨shared, gone, diagnostics, fileNodes, relations⟩ := seen
  have listed : "gone" ∈ files.map Path.normalize := by decide +kernel
  obtain ⟨present, _⟩ | ⟨absent, once⟩ := accounted "gone" listed
  · exact absurd (gone.symm.trans present) nofun
  have bad : "bad" ∈ built.report.diagnostics.map (·.path) := by
    rw [diagnostics]
    decide
  obtain ⟨diagnostic, stated, path⟩ := List.mem_map.mp bad
  have diagnosed := diagnosed diagnostic stated
  rw [path] at diagnosed
  obtain ⟨member, _⟩ := Graph.id_of_node? shared
  obtain ⟨owner, own, _, related⟩ := owned _ member (by decide)
  obtain rfl : "a" = owner := Option.some.inj own
  exact ⟨built, ran, counted.trans fileNodes, absent, once, diagnosed, related, relations⟩

end CodeAtlas
