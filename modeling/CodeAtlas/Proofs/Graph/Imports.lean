import CodeAtlas.Proofs.Graph.Links

namespace CodeAtlas

/-- The file that an import means among those that a build takes up. -/
def Project.importTarget? (project : Project) (files : List String) (path : String)
    (binding : ImportBinding) : Option String :=
  Path.resolveImport? path binding.module fun candidate =>
    decide (candidate ∈ (project.indexed files).map (·.1))

namespace Graph

theorem importEdge?_ofFiles (project : Project) (files : List String) (path : String)
    (binding : ImportBinding) :
    (ofFiles (project.indexed files)).importEdge? path binding =
      (project.importTarget? files path binding).map fun target =>
        ⟨GraphNode.fileId path, GraphNode.fileId target, .imports⟩ := by
  have known : (fun candidate =>
      (ofFiles (project.indexed files)).contains (GraphNode.fileId candidate)) =
        fun candidate => decide (candidate ∈ (project.indexed files).map (·.1)) := by
    funext candidate
    rw [Bool.eq_iff_iff, contains_fileId_ofFiles, decide_eq_true_iff]
  rw [importEdge?, known, Project.importTarget?]

theorem importEdge?_eq_some {project : Project} {files : List String} {path source target : String}
    {binding : ImportBinding} :
    (ofFiles (project.indexed files)).importEdge? path binding =
        some ⟨GraphNode.fileId source, GraphNode.fileId target, .imports⟩ ↔
      path = source ∧ project.importTarget? files path binding = some target := by
  rw [importEdge?_ofFiles, Option.map_eq_some_iff]
  constructor
  · rintro ⟨_, resolved, same⟩
    obtain ⟨from', to', _⟩ := GraphEdge.mk.inj same
    rw [GraphNode.fileId_injective to'] at resolved
    exact ⟨GraphNode.fileId_injective from', resolved⟩
  · rintro ⟨rfl, resolved⟩
    exact ⟨target, resolved, rfl⟩

theorem exists_relativeImports {files : List (String × Outline)}
    {p : String → ImportBinding → Prop} :
    (∃ item ∈ files.flatMap Linking.relativeImports, p item.1 item.2) ↔
      ∃ file ∈ files, ∃ binding ∈ file.2.imports, binding.isRelative = true ∧ p file.1 binding := by
  simp only [List.mem_flatMap, Linking.relativeImports, List.mem_map, List.mem_filter]
  constructor
  · rintro ⟨_, ⟨file, listed, binding, ⟨stated, relative⟩, rfl⟩, holds⟩
    exact ⟨file, listed, binding, stated, relative, holds⟩
  · rintro ⟨file, listed, binding, stated, relative, holds⟩
    exact ⟨_, ⟨file, listed, binding, ⟨stated, relative⟩, rfl⟩, holds⟩

end Graph

/-- An import that is linked joins two of the files. -/
theorem Linking.Accounts.files_of_import {files : List (String × Outline)}
    {calls : List (String × CallSite)} {linking : Linking}
    (accounts : Accounts (.ofFiles files) (files.flatMap relativeImports) calls linking)
    {edge : GraphEdge} (member : edge ∈ linking.graph.edgesOf .imports) :
    ∃ source ∈ files.map (·.1), ∃ target ∈ files.map (·.1),
      edge = ⟨GraphNode.fileId source, GraphNode.fileId target, .imports⟩ ∧
        linking.graph.node? edge.source = some (.ofFile source) ∧
        linking.graph.node? edge.target = some (.ofFile target) := by
  rw [accounts.mem_imports, Graph.exists_relativeImports (p := fun path binding =>
    (Graph.ofFiles files).importEdge? path binding = some _)] at member
  obtain ⟨file, listed, binding, _, _, linked⟩ := member
  have taken : file.1 ∈ files.map (·.1) := List.mem_map_of_mem listed
  have known := Graph.contains_fileId_ofFiles.mpr taken
  have joined := Graph.joins_importEdge known linked
  obtain ⟨target, _, rfl⟩ := Graph.importEdge?_eq_some_iff.mp linked
  have known' := (Bool.and_eq_true_iff.mp joined).2
  rw [Graph.node?_congr accounts.nodes, Graph.node?_congr accounts.nodes]
  exact ⟨file.1, taken, target, Graph.contains_fileId_ofFiles.mp known', rfl,
    Graph.node?_fileId known, Graph.node?_fileId known'⟩

namespace Builder

/-- A build links two files once if the first one has a relative import that means the second one,
wherever that stands in the list, and not otherwise. It links nothing but files that way, and counts
the links and the relative imports that mean no file. -/
theorem build_imports (builder : Builder) (project : Project) {files : List String}
    {cancelled : Nat → Bool} (goes : ∀ number < files.length, cancelled number = false) :
    ∃ built, (builder.build project cancelled files).1 = .ok built ∧
      (∀ source target,
        ⟨GraphNode.fileId source, GraphNode.fileId target, .imports⟩ ∈ built.graph.edges ↔
          ∃ outline, (source, outline) ∈ project.indexed files ∧
            ∃ binding ∈ outline.imports, binding.isRelative = true ∧
              project.importTarget? files source binding = some target) ∧
      (built.graph.edgesOf .imports).Nodup ∧
      (∀ edge ∈ built.graph.edgesOf .imports, ∃ source target,
        built.graph.node? edge.source = some (.ofFile source) ∧
          built.graph.node? edge.target = some (.ofFile target)) ∧
      built.report.importsResolved = (built.graph.edgesOf .imports).length ∧
      built.report.importsUnresolved = ((project.indexed files).map fun file =>
        file.2.imports.countP fun binding =>
          binding.isRelative && (project.importTarget? files file.1 binding).isNone).sum := by
  obtain ⟨built, linking, ran, accounts, graph, resolved, unresolved, _, _⟩ :=
    builder.build_accounts project goes
  refine ⟨built, ran, ?_, ?_, ?_, ?_, ?_⟩
  · intro source target
    have member := accounts.mem_imports ⟨GraphNode.fileId source, GraphNode.fileId target, .imports⟩
    rw [Graph.mem_edgesOf, and_iff_left rfl] at member
    rw [graph, member, Graph.exists_relativeImports (p := fun path binding =>
      (Graph.ofFiles (project.indexed files)).importEdge? path binding = some _)]
    simp only [Graph.importEdge?_eq_some]
    constructor
    · rintro ⟨file, listed, binding, stated, relative, rfl, resolves⟩
      exact ⟨file.2, listed, binding, stated, relative, resolves⟩
    · rintro ⟨outline, listed, binding, stated, relative, resolves⟩
      exact ⟨(source, outline), listed, binding, stated, relative, rfl, resolves⟩
  · rw [graph]
    exact accounts.nodup_imports
  · intro edge member
    rw [graph] at member ⊢
    obtain ⟨source, _, target, _, _, ends⟩ := accounts.files_of_import member
    exact ⟨source, target, ends⟩
  · rw [resolved, graph, accounts.importsResolved]
  · rw [unresolved, accounts.importsUnresolved, List.countP_flatMap]
    simp only [Function.comp_def, Linking.relativeImports, List.countP_map, List.countP_filter,
      Graph.importEdge?_ofFiles, Option.isNone_map, Bool.and_comm]

/-- A file imports another one twice and itself, and is imported by a file that comes first. What
is missing or comes from elsewhere is no file. -/
theorem build_imports_cycle :
    let first : Outline := ⟨[], [⟨"a", "../a", true⟩], []⟩
    let second : Outline :=
      ⟨[], [⟨"b", "./lib/b", true⟩, ⟨"c", "./lib/b", false⟩, ⟨"*", "./a", false⟩,
        ⟨"d", "./gone", true⟩, ⟨"e", "react", true⟩], []⟩
    let project : Project :=
      ⟨fun path => if path = "gone.ts" then .missing else .text ".",
        fun path _ => .ok (if path = "lib/b.ts" then first else second)⟩
    let files := ["lib/b.ts", "gone.ts", "a.ts"]
    ∃ built, ((new .unset).build project (fun _ => false) files).1 = .ok built ∧
      ⟨"file:lib/b.ts", "file:a.ts", .imports⟩ ∈ built.graph.edges ∧
      built.report.importsResolved = 3 ∧ built.report.importsUnresolved = 1 := by
  intro first second project files
  let never : Nat → Bool := fun _ => false
  have goes : ∀ number < files.length, never number = false := fun _ _ => rfl
  obtain ⟨built, ran, imported, _, _, resolved, unresolved⟩ :=
    build_imports (new .unset) project goes
  have links : ((new .unset).build project never files).1.toOption.map
      (·.graph.edgesOf .imports |>.length) = some 3 := by decide +kernel
  rw [ran] at links
  have member : ("lib/b.ts", first) ∈ project.indexed files := by decide +kernel
  have target : project.importTarget? files "lib/b.ts" ⟨"a", "../a", true⟩ = some "a.ts" := by
    decide +kernel
  refine ⟨built, ran, ?_, resolved.trans (Option.some.inj links), ?_⟩
  · exact (imported "lib/b.ts" "a.ts").mpr
      ⟨first, member, _, List.mem_cons_self .., by decide +kernel, target⟩
  · rw [unresolved]
    decide +kernel

end Builder

end CodeAtlas
