import CodeAtlas.Proofs.Graph.Draft
import CodeAtlas.Proofs.Graph.Linking

namespace CodeAtlas

/-- Two builds have the same results, in whatever order. -/
structure BuiltGraph.Agrees (first second : BuiltGraph) : Prop where
  nodes : first.graph.nodes.Perm second.graph.nodes
  edges : first.graph.edges.Perm second.graph.edges
  filesIndexed : first.report.filesIndexed = second.report.filesIndexed
  skipped : first.report.skipped.Perm second.report.skipped
  diagnostics : first.report.diagnostics.Perm second.report.diagnostics
  importsResolved : first.report.importsResolved = second.report.importsResolved
  importsUnresolved : first.report.importsUnresolved = second.report.importsUnresolved
  callsResolved : first.report.callsResolved = second.report.callsResolved
  callsUnresolved : first.report.callsUnresolved = second.report.callsUnresolved

namespace Linking

variable {nodes : List GraphNode} {first second : List (String × Outline)}

theorem ofFiles_edges_perm (perm : first.Perm second) :
    (ofFiles nodes first).graph.edges.Perm (ofFiles nodes second).graph.edges :=
  perm.flatMap_right _

theorem ofFiles_counts_perm (nodes : List GraphNode) (perm : first.Perm second) :
    (ofFiles nodes first).importsResolved = (ofFiles nodes second).importsResolved ∧
      (ofFiles nodes first).importsUnresolved = (ofFiles nodes second).importsUnresolved ∧
      (ofFiles nodes first).callsResolved = (ofFiles nodes second).callsResolved ∧
      (ofFiles nodes first).callsUnresolved = (ofFiles nodes second).callsUnresolved :=
  ⟨(perm.map _).sum_nat, (perm.map _).sum_nat, (perm.map _).sum_nat, (perm.map _).sum_nat⟩

end Linking

namespace Draft

variable {project : Project} {paths others : List String}

theorem plain_outlines (plain : ∀ path ∈ paths, ':' ∉ path.toList) :
    ∀ file ∈ (ofPaths project paths).outlines, ':' ∉ file.1.toList :=
  fun _ member =>
    plain _ ((paths_outlines_sublist project paths).subset (List.mem_map_of_mem member))

theorem nodup_outlines (distinct : paths.Nodup) :
    ((ofPaths project paths).outlines.map (·.1)).Nodup :=
  distinct.sublist (paths_outlines_sublist project paths)

theorem graph_ofPaths (plain : ∀ path ∈ paths, ':' ∉ path.toList) (distinct : paths.Nodup) :
    (ofPaths project paths).graph =
      ⟨(ofPaths project paths).outlines.flatMap (Graph.ofFile · |>.nodes),
        (ofPaths project paths).outlines.flatMap (Graph.ofFile · |>.edges)⟩ :=
  Graph.ofFiles_eq (plain_outlines plain) (nodup_outlines distinct)

/-- The links of different files are those of each file alone, whichever nodes have their ids. -/
theorem link_ofPaths {nodes : List GraphNode} (distinct : paths.Nodup)
    (known : ∀ id, (ofPaths project paths).graph.contains id = (Graph.mk nodes []).contains id) :
    (Linking.start (ofPaths project paths).graph).GoesOn
      (.ofFiles nodes (ofPaths project paths).outlines) (ofPaths project paths).link := by
  refine Linking.foldl_addOutline known (nodup_outlines distinct) fun file _ target member => ?_
  have type := Graph.type_of_mem_ofFiles _ _ member
  cases type

theorem agrees_of_perm (perm : paths.Perm others) (plain : ∀ path ∈ paths, ':' ∉ path.toList)
    (distinct : paths.Nodup) (written written' : Bool) :
    let first := ofPaths project paths
    let second := ofPaths project others
    BuiltGraph.Agrees ⟨first.link.graph, first.report first.link, written⟩
      ⟨second.link.graph, second.report second.link, written'⟩ := by
  intro first second
  have outlines : first.outlines.Perm second.outlines := perm.flatMap_right _
  have graph : first.graph = _ := graph_ofPaths plain distinct
  have graph' : second.graph = _ := graph_ofPaths
    (fun path member => plain path (perm.mem_iff.mpr member)) (perm.nodup_iff.mp distinct)
  have nodes : first.graph.nodes.Perm second.graph.nodes := by
    rw [graph, graph']
    exact outlines.flatMap_right _
  have edges : first.graph.edges.Perm second.graph.edges := by
    rw [graph, graph']
    exact outlines.flatMap_right _
  have linked : (Linking.start first.graph).GoesOn (.ofFiles first.graph.nodes first.outlines)
      first.link := link_ofPaths distinct fun _ => rfl
  have linked' : (Linking.start second.graph).GoesOn (.ofFiles first.graph.nodes second.outlines)
      second.link := link_ofPaths (perm.nodup_iff.mp distinct) fun id => nodes.symm.any_eq
  obtain ⟨importsResolved, importsUnresolved, callsResolved, callsUnresolved⟩ :=
    Linking.ofFiles_counts_perm first.graph.nodes outlines
  refine ⟨?_, ?_, outlines.length_eq, perm.flatMap_right _, perm.flatMap_right _, ?_, ?_, ?_, ?_⟩
  · rw [linked.nodes, linked'.nodes]
    exact nodes
  · rw [linked.edges, linked'.edges]
    exact edges.append (Linking.ofFiles_edges_perm outlines)
  · simp only [report, linked.importsResolved, linked'.importsResolved, importsResolved]
    rfl
  · simp only [report, linked.importsUnresolved, linked'.importsUnresolved, importsUnresolved]
    rfl
  · simp only [report, linked.callsResolved, linked'.callsResolved, callsResolved]
    rfl
  · simp only [report, linked.callsUnresolved, linked'.callsUnresolved, callsUnresolved]
    rfl

end Draft

namespace Builder

/-- Two builds that nobody cancels agree if their files are the same, in whatever order, however
often and however spelled, as long as no path has a colon in it. -/
theorem build_agrees (builder builder' : Builder) (project : Project) {files others : List String}
    (same : ∀ path, path ∈ files.map Path.normalize ↔ path ∈ others.map Path.normalize)
    (plain : ∀ path ∈ files.map Path.normalize, ':' ∉ path.toList)
    {cancelled cancelled' : Nat → Bool} (goes : ∀ number < files.length, cancelled number = false)
    (goes' : ∀ number < others.length, cancelled' number = false) :
    ∃ first second, (builder.build project cancelled files).1 = .ok first ∧
      (builder'.build project cancelled' others).1 = .ok second ∧ first.Agrees second := by
  obtain ⟨written, built⟩ := builder.build_of_not_cancelled project goes
  obtain ⟨written', built'⟩ := builder'.build_of_not_cancelled project goes'
  refine ⟨_, _, built, built', ?_⟩
  have perm : (files.map Path.normalize).eraseDups.Perm (others.map Path.normalize).eraseDups := by
    rw [List.perm_ext_iff_of_nodup (Graph.nodup_paths files) (Graph.nodup_paths others)]
    intro path
    rw [List.mem_eraseDups, List.mem_eraseDups]
    exact same path
  unfold Graph.build
  rw [Graph.draft_eq, Graph.draft_eq]
  exact Draft.agrees_of_perm perm (fun path member => plain path (List.mem_eraseDups.mp member))
    (Graph.nodup_paths files) written written'

/-- Two files, and again in another order, one of them twice and both spelled differently. -/
theorem build_agrees_spelled :
    let project := Project.ofFiles fun path =>
      .text (if path = "a.ts" then "import b from \"./b\";\nb();\n" else "export const b = 1;\n")
    let files := ["a.ts", "src/../b.ts"]
    let others := ["./b.ts", "a.ts", ".\\a.ts"]
    ∃ first second, ((new .unset).build project (fun _ => false) files).1 = .ok first ∧
      ((new .blocked).build project (fun _ => false) others).1 = .ok second ∧
        first.Agrees second := by
  intro project files others
  have paths : files.map Path.normalize = ["a.ts", "b.ts"] := by decide +kernel
  have paths' : others.map Path.normalize = ["b.ts", "a.ts", "a.ts"] := by decide +kernel
  refine build_agrees (new .unset) (new .blocked) project ?_ ?_ (fun _ _ => rfl) (fun _ _ => rfl)
  · simp [paths, paths', or_comm]
  · rw [paths]
    decide

end Builder

end CodeAtlas
