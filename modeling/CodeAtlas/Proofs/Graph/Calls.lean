import CodeAtlas.Proofs.Graph.Links

namespace CodeAtlas

namespace Graph

/-- What is called is a function of the file, and so is what calls it unless that is the file. -/
def knowsCall (graph : Graph) (path : String) (call : CallSite) : Bool :=
  graph.contains (GraphNode.symbolId .function path call.callee) &&
    call.caller.all fun caller => graph.contains (GraphNode.symbolId .function path caller)

variable {graph : Graph} {path : String}

theorem joins_callEdge (known : graph.contains (GraphNode.fileId path) = true) (call : CallSite) :
    graph.joins (Linking.callEdge path call) = graph.knowsCall path call := by
  unfold joins knowsCall Linking.callEdge
  cases call.caller with
  | none => simp [known]
  | some caller => simp [Bool.and_comm]

theorem knowsCall_congr {other : Graph} (same : graph.nodes = other.nodes) (path : String) :
    graph.knowsCall path = other.knowsCall path := by
  funext call
  simp only [knowsCall, contains, same]

/-- Both ends of a call are in one file. -/
theorem nodes_of_callEdge {files : List (String × Outline)} {call : CallSite}
    (plain : ∀ file ∈ files, ':' ∉ file.1.toList) (plain' : ':' ∉ path.toList)
    (joined : (ofFiles files).joins (Linking.callEdge path call) = true) :
    ∃ source target, (ofFiles files).node? (Linking.callEdge path call).source = some source ∧
      (ofFiles files).node? (Linking.callEdge path call).target = some target ∧
      (source = .ofFile path ∨ source.type = .symbol .function ∧ source.path = some path) ∧
      target.type = .symbol .function ∧ target.path = some path := by
  obtain ⟨known, known'⟩ := Bool.and_eq_true_iff.mp joined
  obtain ⟨target, atTarget, called⟩ := node?_symbolId plain plain' known'
  unfold Linking.callEdge at known ⊢
  cases caller : call.caller with
  | none =>
    simp only [caller] at known
    exact ⟨.ofFile path, target, node?_fileId known, atTarget, .inl rfl, called⟩
  | some name =>
    simp only [caller] at known
    obtain ⟨source, atSource, calls⟩ := node?_symbolId plain plain' known
    exact ⟨source, target, atSource, atTarget, .inr calls, called⟩

theorem filter_joins_callSites {files : List (String × Outline)}
    (known : ∀ file ∈ files, graph.contains (GraphNode.fileId file.1) = true) :
    ((files.flatMap Linking.callSites).map fun item =>
        Linking.callEdge item.1 item.2).filter graph.joins =
      files.flatMap fun file =>
        (file.2.calls.filter (graph.knowsCall file.1)).map (Linking.callEdge file.1) := by
  induction files with
  | nil => rfl
  | cons file files ih =>
    obtain ⟨first, others⟩ := List.forall_mem_cons.mp known
    have own : graph.joins ∘ Linking.callEdge file.1 = graph.knowsCall file.1 :=
      funext (joins_callEdge first)
    rw [List.flatMap_cons, List.flatMap_cons, List.map_append, List.filter_append, ih others,
      ← own, ← List.filter_map, Linking.callSites, List.map_map]
    rfl

end Graph

/-- A call that is linked has both its ends in one of the files. -/
theorem Linking.Accounts.nodes_of_call {files : List (String × Outline)}
    {imports : List (String × ImportBinding)} {linking : Linking}
    (accounts : Accounts (.ofFiles files) imports (files.flatMap callSites) linking)
    (plain : ∀ file ∈ files, ':' ∉ file.1.toList) {edge : GraphEdge}
    (member : edge ∈ linking.graph.edgesOf .calls) :
    ∃ path ∈ files.map (·.1), ∃ source target, linking.graph.node? edge.source = some source ∧
      linking.graph.node? edge.target = some target ∧
      (source = .ofFile path ∨ source.type = .symbol .function ∧ source.path = some path) ∧
      target.type = .symbol .function ∧ target.path = some path := by
  rw [accounts.edges_calls, List.mem_filter] at member
  obtain ⟨listed, joined⟩ := member
  obtain ⟨item, site, rfl⟩ := List.mem_map.mp listed
  obtain ⟨file, taken, inFile⟩ := List.mem_flatMap.mp site
  obtain ⟨call, _, rfl⟩ := List.mem_map.mp inFile
  rw [Graph.node?_congr accounts.nodes, Graph.node?_congr accounts.nodes]
  exact ⟨file.1, List.mem_map_of_mem taken, Graph.nodes_of_callEdge plain (plain file taken) joined⟩

namespace Builder

/-- A build links every call within its file: from the file or one of its functions to one of its
functions. It links those calls whose ends are nodes, each once, and counts all others. -/
theorem build_calls (builder : Builder) (project : Project) {files : List String}
    (plain : ∀ path ∈ files.map Path.normalize, ':' ∉ path.toList) {cancelled : Nat → Bool}
    (goes : ∀ number < files.length, cancelled number = false) :
    ∃ built, (builder.build project cancelled files).1 = .ok built ∧
      (∀ edge ∈ built.graph.edgesOf .calls, ∃ path source target,
        built.graph.node? edge.source = some source ∧
          built.graph.node? edge.target = some target ∧
          (source = .ofFile path ∨ source.type = .symbol .function ∧ source.path = some path) ∧
          target.type = .symbol .function ∧ target.path = some path) ∧
      built.graph.edgesOf .calls = (project.indexed files).flatMap (fun file =>
        (file.2.calls.filter (built.graph.knowsCall file.1)).map (Linking.callEdge file.1)) ∧
      built.report.callsResolved = (built.graph.edgesOf .calls).length ∧
      built.report.callsResolved + built.report.callsUnresolved =
        ((project.indexed files).map (·.2.calls.length)).sum := by
  obtain ⟨built, linking, ran, accounts, graph, _, _, resolved, unresolved⟩ :=
    builder.build_accounts project goes
  have plainFiles := project.plain_indexed plain
  have known : ∀ file ∈ project.indexed files,
      (Graph.ofFiles (project.indexed files)).contains (GraphNode.fileId file.1) = true :=
    fun file member => Graph.contains_fileId_ofFiles.mpr (List.mem_map_of_mem member)
  refine ⟨built, ran, ?_, ?_, ?_, ?_⟩
  · intro edge member
    rw [graph] at member ⊢
    obtain ⟨path, _, within⟩ := accounts.nodes_of_call plainFiles member
    exact ⟨path, within⟩
  · rw [graph, accounts.edges_calls, Graph.filter_joins_callSites known]
    simp only [Graph.knowsCall_congr accounts.nodes]
  · rw [resolved, graph, accounts.callsResolved]
  · rw [resolved, unresolved, accounts.callsUnresolved, List.length_flatMap]
    simp only [Linking.callSites, List.length_map]

/-- A function of the first file has a name that looks like a function of the second one. Neither
file reaches what only the other one declares. -/
theorem build_calls_lookalike :
    let first : Outline :=
      ⟨[⟨"help", .function, 1, 1, false⟩, ⟨"b.ts:go", .function, 2, 4, false⟩], [],
        [⟨none, "help", 5⟩, ⟨some "b.ts:go", "help", 3⟩, ⟨some "go", "help", 3⟩]⟩
    let second : Outline := ⟨[⟨"go", .function, 1, 1, true⟩], [], [⟨some "go", "help", 1⟩]⟩
    let project : Project :=
      ⟨fun _ => .text ".", fun path _ => .ok (if path = "a.ts" then first else second)⟩
    let files := ["./a.ts", "b.ts"]
    ∃ built, ((new .unset).build project (fun _ => false) files).1 = .ok built ∧
      (∀ edge ∈ built.graph.edgesOf .calls, ∃ path target,
        built.graph.node? edge.target = some target ∧ target.path = some path) ∧
      built.graph.edgesOf .calls =
        [⟨"file:a.ts", "function:a.ts:help", .calls⟩,
          ⟨"function:a.ts:b.ts:go", "function:a.ts:help", .calls⟩] ∧
      built.report.callsResolved = 2 ∧ built.report.callsUnresolved = 2 := by
  intro first second project files
  have paths : files.map Path.normalize = ["a.ts", "b.ts"] := by decide +kernel
  have plain : ∀ path ∈ files.map Path.normalize, ':' ∉ path.toList := by
    rw [paths]
    decide
  let never : Nat → Bool := fun _ => false
  have goes : ∀ number < files.length, never number = false := fun _ _ => rfl
  obtain ⟨built, ran, within, _, resolved, total⟩ := build_calls (new .unset) project plain goes
  have calls : ((new .unset).build project never files).1.toOption.map (·.graph.edgesOf .calls) =
      some [⟨"file:a.ts", "function:a.ts:help", .calls⟩,
        ⟨"function:a.ts:b.ts:go", "function:a.ts:help", .calls⟩] := by decide +kernel
  rw [ran] at calls
  have linked : built.graph.edgesOf .calls = _ := Option.some.inj calls
  have sites : ((project.indexed files).map (·.2.calls.length)).sum = 4 := by decide +kernel
  rw [sites] at total
  rw [linked] at resolved
  refine ⟨built, ran, ?_, linked, resolved, ?_⟩
  · intro edge member
    obtain ⟨path, _, target, _, found, _, _, inFile⟩ := within edge member
    exact ⟨path, target, found, inFile⟩
  · change built.report.callsResolved = 2 at resolved
    omega

end Builder

end CodeAtlas
