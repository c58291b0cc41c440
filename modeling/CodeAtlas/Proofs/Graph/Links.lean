import CodeAtlas.Proofs.Graph.Indexed
import CodeAtlas.Proofs.Graph.Linking
import Mathlib.Data.List.Nodup

namespace CodeAtlas

theorem Path.known_of_resolveImport? {importer specifier target : String} (known : String → Bool)
    (resolved : resolveImport? importer specifier known = some target) : known target = true := by
  unfold resolveImport? at resolved
  split at resolved
  · exact List.find?_some resolved
  · cases resolved

namespace Graph

variable {graph : Graph}

def edgesOf (graph : Graph) (type : EdgeType) : List GraphEdge :=
  graph.edges.filter (·.type == type)

theorem mem_edgesOf {type : EdgeType} {edge : GraphEdge} :
    edge ∈ graph.edgesOf type ↔ edge ∈ graph.edges ∧ edge.type = type := by
  simp [edgesOf]

theorem hasEdge_iff {edge : GraphEdge} :
    graph.hasEdge edge = true ↔ edge ∈ graph.edgesOf edge.type := by
  rw [hasEdge, List.contains_iff_mem, mem_edgesOf, and_iff_left rfl]

theorem edgesOf_addEdge_self {edge : GraphEdge} (joined : graph.joins edge = true) :
    (graph.addEdge edge).edgesOf edge.type = graph.edgesOf edge.type ++ [edge] := by
  simp [addEdge, joined, edgesOf]

theorem edgesOf_addEdge_of_ne {edge : GraphEdge} {type : EdgeType} (other : edge.type ≠ type) :
    (graph.addEdge edge).edgesOf type = graph.edgesOf type := by
  unfold addEdge
  split
  · simp [edgesOf, other]
  · rfl

/-- The relation that an import stands for, if it means a file of the graph. -/
def importEdge? (graph : Graph) (path : String) (binding : ImportBinding) : Option GraphEdge :=
  (Path.resolveImport? path binding.module fun candidate =>
    graph.contains (GraphNode.fileId candidate)).map fun target =>
      ⟨GraphNode.fileId path, GraphNode.fileId target, .imports⟩

theorem importEdge?_eq_some_iff {path : String} {binding : ImportBinding} {edge : GraphEdge} :
    graph.importEdge? path binding = some edge ↔
      ∃ target, (Path.resolveImport? path binding.module fun candidate =>
          graph.contains (GraphNode.fileId candidate)) = some target ∧
        edge = ⟨GraphNode.fileId path, GraphNode.fileId target, .imports⟩ := by
  rw [importEdge?, Option.map_eq_some_iff]
  exact exists_congr fun target => and_congr_right fun _ => eq_comm

theorem type_importEdge {path : String} {binding : ImportBinding} {edge : GraphEdge}
    (linked : graph.importEdge? path binding = some edge) : edge.type = .imports := by
  obtain ⟨target, _, rfl⟩ := importEdge?_eq_some_iff.mp linked
  rfl

theorem joins_importEdge {path : String} {binding : ImportBinding} {edge : GraphEdge}
    (known : graph.contains (GraphNode.fileId path) = true)
    (linked : graph.importEdge? path binding = some edge) : graph.joins edge = true := by
  obtain ⟨target, resolved, rfl⟩ := importEdge?_eq_some_iff.mp linked
  rw [joins, Bool.and_eq_true]
  exact ⟨known, Path.known_of_resolveImport?
    (fun candidate => graph.contains (GraphNode.fileId candidate)) resolved⟩

end Graph

namespace Linking

theorem addImport_eq (linking : Linking) (path : String) (binding : ImportBinding) :
    linking.addImport path binding =
      match linking.graph.importEdge? path binding with
      | none => { linking with importsUnresolved := linking.importsUnresolved + 1 }
      | some edge =>
        if linking.graph.hasEdge edge then linking
        else
          { linking with
            graph := linking.graph.addEdge edge
            importsResolved := linking.importsResolved + 1 } := by
  unfold addImport Graph.importEdge?
  dsimp only
  cases Path.resolveImport? path binding.module _ <;> rfl

/-- The links that were added to a graph are those of the imports and calls, each with the path of
the file it stands in. -/
structure Accounts (graph : Graph) (imports : List (String × ImportBinding))
    (calls : List (String × CallSite)) (linking : Linking) : Prop where
  nodes : linking.graph.nodes = graph.nodes
  mem_imports : ∀ edge, edge ∈ linking.graph.edgesOf .imports ↔
    ∃ item ∈ imports, graph.importEdge? item.1 item.2 = some edge
  nodup_imports : (linking.graph.edgesOf .imports).Nodup
  importsResolved : linking.importsResolved = (linking.graph.edgesOf .imports).length
  importsUnresolved : linking.importsUnresolved =
    imports.countP fun item => (graph.importEdge? item.1 item.2).isNone
  edges_calls : linking.graph.edgesOf .calls =
    (calls.map fun item => callEdge item.1 item.2).filter graph.joins
  callsResolved : linking.callsResolved = (linking.graph.edgesOf .calls).length
  callsUnresolved : linking.callsResolved + linking.callsUnresolved = calls.length

variable {graph : Graph} {imports : List (String × ImportBinding)}
  {calls : List (String × CallSite)} {linking : Linking} {path : String}

theorem accounts_start (declared : ∀ edge ∈ graph.edges, edge.type = .contains) :
    Accounts graph [] [] (start graph) := by
  have empty : ∀ type : EdgeType, .contains ≠ type → (start graph).graph.edgesOf type = [] := by
    intro type other
    rw [Graph.edgesOf, List.filter_eq_nil_iff]
    intro edge member
    rw [declared edge member]
    simpa using other
  have imports := empty .imports (by decide)
  have calls := empty .calls (by decide)
  refine ⟨rfl, ?_, ?_, ?_, rfl, ?_, ?_, rfl⟩
  · simp [imports]
  · rw [imports]
    exact List.nodup_nil
  · rw [imports]
    rfl
  · rw [calls]
    rfl
  · rw [calls]
    rfl

namespace Accounts

theorem contains_eq (accounts : Accounts graph imports calls linking) (id : String) :
    linking.graph.contains id = graph.contains id := by
  rw [Graph.contains, accounts.nodes]
  rfl

theorem joins_eq (accounts : Accounts graph imports calls linking) (edge : GraphEdge) :
    linking.graph.joins edge = graph.joins edge := by
  rw [Graph.joins, Graph.joins, accounts.contains_eq, accounts.contains_eq]

theorem importEdge?_eq (accounts : Accounts graph imports calls linking) (path : String)
    (binding : ImportBinding) :
    linking.graph.importEdge? path binding = graph.importEdge? path binding := by
  simp only [Graph.importEdge?, accounts.contains_eq]

theorem unresolvedImport (accounts : Accounts graph imports calls linking)
    {binding : ImportBinding} (missing : graph.importEdge? path binding = none) :
    Accounts graph (imports ++ [(path, binding)]) calls
      { linking with importsUnresolved := linking.importsUnresolved + 1 } := by
  refine { accounts with mem_imports := fun edge => ?_, importsUnresolved := ?_ }
  · simp [accounts.mem_imports, missing, or_and_right, exists_or]
  · simp [accounts.importsUnresolved, missing]

theorem mem_imports_append (accounts : Accounts graph imports calls linking)
    {binding : ImportBinding} {edge : GraphEdge}
    (linked : graph.importEdge? path binding = some edge) (other : GraphEdge) :
    (∃ item ∈ imports ++ [(path, binding)], graph.importEdge? item.1 item.2 = some other) ↔
      other ∈ linking.graph.edgesOf .imports ∨ other = edge := by
  simp [accounts.mem_imports, linked, or_and_right, exists_or, eq_comm (a := other)]

theorem importsUnresolved_append (accounts : Accounts graph imports calls linking)
    {binding : ImportBinding} {edge : GraphEdge}
    (linked : graph.importEdge? path binding = some edge) :
    linking.importsUnresolved = (imports ++ [(path, binding)]).countP fun item =>
      (graph.importEdge? item.1 item.2).isNone := by
  simp [accounts.importsUnresolved, linked]

theorem repeatedImport (accounts : Accounts graph imports calls linking)
    {binding : ImportBinding} {edge : GraphEdge}
    (linked : graph.importEdge? path binding = some edge)
    (present : edge ∈ linking.graph.edgesOf .imports) :
    Accounts graph (imports ++ [(path, binding)]) calls linking := by
  refine { accounts with
    mem_imports := fun other => ?_
    importsUnresolved := accounts.importsUnresolved_append linked }
  rw [accounts.mem_imports_append linked, or_iff_left_of_imp]
  rintro rfl
  exact present

theorem newImport (accounts : Accounts graph imports calls linking)
    (known : graph.contains (GraphNode.fileId path) = true) {binding : ImportBinding}
    {edge : GraphEdge} (linked : graph.importEdge? path binding = some edge)
    (new : edge ∉ linking.graph.edgesOf .imports) :
    Accounts graph (imports ++ [(path, binding)]) calls
      { linking with
        graph := linking.graph.addEdge edge
        importsResolved := linking.importsResolved + 1 } := by
  have type : edge.type = .imports := Graph.type_importEdge linked
  have joined : linking.graph.joins edge = true := by
    rw [accounts.joins_eq]
    exact Graph.joins_importEdge known linked
  have imported : (linking.graph.addEdge edge).edgesOf .imports =
      linking.graph.edgesOf .imports ++ [edge] := by
    rw [← type, Graph.edgesOf_addEdge_self joined]
  have called : (linking.graph.addEdge edge).edgesOf .calls = linking.graph.edgesOf .calls :=
    Graph.edgesOf_addEdge_of_ne (by rw [type]; decide)
  refine ⟨(Graph.nodes_addEdge ..).trans accounts.nodes, fun other => ?_, ?_, ?_,
    accounts.importsUnresolved_append linked, ?_, ?_, accounts.callsUnresolved⟩
  · rw [accounts.mem_imports_append linked, imported, List.mem_append, List.mem_singleton]
  · rw [imported, ← List.concat_eq_append]
    exact accounts.nodup_imports.concat new
  · rw [imported, List.length_append, accounts.importsResolved]
    rfl
  · rw [called, accounts.edges_calls]
  · rw [called, accounts.callsResolved]

theorem addImport (accounts : Accounts graph imports calls linking)
    (known : graph.contains (GraphNode.fileId path) = true) (binding : ImportBinding) :
    Accounts graph (imports ++ [(path, binding)]) calls (linking.addImport path binding) := by
  rw [addImport_eq, accounts.importEdge?_eq]
  cases linked : graph.importEdge? path binding with
  | none => exact accounts.unresolvedImport linked
  | some edge =>
    have present : linking.graph.hasEdge edge = true ↔ edge ∈ linking.graph.edgesOf .imports := by
      rw [Graph.hasEdge_iff, Graph.type_importEdge linked]
    dsimp only
    -- An import that is already linked is not counted, neither as resolved nor as unresolved.
    split
    · next again => exact accounts.repeatedImport linked (present.mp again)
    · next new => exact accounts.newImport known linked (new ∘ present.mpr)

theorem addCall (accounts : Accounts graph imports calls linking) (path : String)
    (call : CallSite) :
    Accounts graph imports (calls ++ [(path, call)]) (linking.addCall path call) := by
  have type : (callEdge path call).type = .calls := rfl
  have counted := accounts.callsUnresolved
  unfold Linking.addCall
  dsimp only
  split
  · next joined =>
    have called : (linking.graph.addEdge (callEdge path call)).edgesOf .calls =
        linking.graph.edgesOf .calls ++ [callEdge path call] :=
      Graph.edgesOf_addEdge_self joined
    have imported : (linking.graph.addEdge (callEdge path call)).edgesOf .imports =
        linking.graph.edgesOf .imports := Graph.edgesOf_addEdge_of_ne (by rw [type]; decide)
    rw [accounts.joins_eq] at joined
    refine ⟨(Graph.nodes_addEdge ..).trans accounts.nodes, fun edge => ?_, ?_, ?_,
      accounts.importsUnresolved, ?_, ?_, ?_⟩
    · rw [imported, accounts.mem_imports]
    · rw [imported]
      exact accounts.nodup_imports
    · rw [imported, accounts.importsResolved]
    · simp [called, accounts.edges_calls, joined]
    · rw [called, List.length_append, accounts.callsResolved]
      rfl
    · simp only [List.length_append, List.length_singleton]
      omega
  · next apart =>
    rw [accounts.joins_eq] at apart
    refine { accounts with edges_calls := ?_, callsUnresolved := ?_ }
    · simp [accounts.edges_calls, apart]
    · simp only [List.length_append, List.length_singleton]
      omega

end Accounts

/-- The imports of a file that may name another file. -/
def relativeImports (file : String × Outline) : List (String × ImportBinding) :=
  (file.2.imports.filter (·.isRelative)).map (file.1, ·)

def callSites (file : String × Outline) : List (String × CallSite) := file.2.calls.map (file.1, ·)

namespace Accounts

theorem addImports (accounts : Accounts graph imports calls linking)
    (known : graph.contains (GraphNode.fileId path) = true) (bindings : List ImportBinding) :
    Accounts graph (imports ++ bindings.map (path, ·)) calls
      (bindings.foldl (Linking.addImport path) linking) := by
  induction bindings generalizing imports linking with
  | nil => simpa using accounts
  | cons binding bindings ih => simpa using ih (accounts.addImport known binding)

theorem addCalls (accounts : Accounts graph imports calls linking) (path : String)
    (sites : List CallSite) :
    Accounts graph imports (calls ++ sites.map (path, ·))
      (sites.foldl (Linking.addCall path) linking) := by
  induction sites generalizing calls linking with
  | nil => simpa using accounts
  | cons call sites ih => simpa using ih (accounts.addCall path call)

theorem addOutline (accounts : Accounts graph imports calls linking) {file : String × Outline}
    (known : graph.contains (GraphNode.fileId file.1) = true) :
    Accounts graph (imports ++ relativeImports file) (calls ++ callSites file)
      (linking.addOutline file) :=
  (accounts.addImports known _).addCalls file.1 file.2.calls

theorem addOutlines (accounts : Accounts graph imports calls linking)
    {files : List (String × Outline)}
    (known : ∀ file ∈ files, graph.contains (GraphNode.fileId file.1) = true) :
    Accounts graph (imports ++ files.flatMap relativeImports) (calls ++ files.flatMap callSites)
      (files.foldl Linking.addOutline linking) := by
  induction files generalizing imports calls linking with
  | nil => simpa using accounts
  | cons file files ih =>
    obtain ⟨first, others⟩ := List.forall_mem_cons.mp known
    simpa using ih (accounts.addOutline first) others

end Accounts

end Linking

theorem Graph.accounts_link (project : Project) (files : List String) :
    Linking.Accounts (ofFiles (project.indexed files))
      ((project.indexed files).flatMap Linking.relativeImports)
      ((project.indexed files).flatMap Linking.callSites) (draft project files).link := by
  have known : ∀ file ∈ project.indexed files,
      (ofFiles (project.indexed files)).contains (GraphNode.fileId file.1) = true := by
    intro file member
    rw [contains_fileId_ofFiles]
    exact List.mem_map_of_mem member
  rw [Draft.link, outlines_draft, graph_draft]
  exact (Linking.accounts_start (type_of_mem_ofFiles _)).addOutlines known

/-- A build that nobody cancels links the imports and calls of the files that it takes up. -/
theorem Builder.build_accounts (builder : Builder) (project : Project) {cancelled : Nat → Bool}
    {files : List String} (goes : ∀ number < files.length, cancelled number = false) :
    ∃ built linking, (builder.build project cancelled files).1 = .ok built ∧
      Linking.Accounts (.ofFiles (project.indexed files))
        ((project.indexed files).flatMap Linking.relativeImports)
        ((project.indexed files).flatMap Linking.callSites) linking ∧
      built.graph = linking.graph ∧
      built.report.importsResolved = linking.importsResolved ∧
      built.report.importsUnresolved = linking.importsUnresolved ∧
      built.report.callsResolved = linking.callsResolved ∧
      built.report.callsUnresolved = linking.callsUnresolved := by
  obtain ⟨written, ran⟩ := builder.build_of_not_cancelled project goes
  exact ⟨_, _, ran, Graph.accounts_link project files, rfl, rfl, rfl, rfl, rfl⟩

end CodeAtlas
