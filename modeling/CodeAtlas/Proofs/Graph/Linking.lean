import CodeAtlas.Proofs.Graph.Files
import Mathlib.Algebra.GroupWithZero.Nat

namespace CodeAtlas

namespace Linking

/-- Nothing is linked yet. -/
def start (graph : Graph) : Linking := ⟨graph, 0, 0, 0, 0⟩

/-- The links of a file alone, between nodes that are there. -/
def ofFile (nodes : List GraphNode) (file : String × Outline) : Linking :=
  (start ⟨nodes, []⟩).addOutline file

/-- No import of the file is linked. -/
def Lacks (linking : Linking) (path : String) : Prop :=
  ∀ target, ⟨GraphNode.fileId path, target, .imports⟩ ∉ linking.graph.edges

/-- A linking goes on from where it stood as another one goes on from nothing. -/
structure GoesOn (before alone after : Linking) : Prop where
  nodes : after.graph.nodes = before.graph.nodes
  known : ∀ id, before.graph.contains id = alone.graph.contains id
  edges : after.graph.edges = before.graph.edges ++ alone.graph.edges
  importsResolved : after.importsResolved = before.importsResolved + alone.importsResolved
  importsUnresolved : after.importsUnresolved = before.importsUnresolved + alone.importsUnresolved
  callsResolved : after.callsResolved = before.callsResolved + alone.callsResolved
  callsUnresolved : after.callsUnresolved = before.callsUnresolved + alone.callsUnresolved

namespace GoesOn

variable {before alone after : Linking} {path : String}

theorem contains (goesOn : GoesOn before alone after) (id : String) :
    after.graph.contains id = alone.graph.contains id := by
  rw [← goesOn.known, Graph.contains, goesOn.nodes]
  rfl

theorem joins (goesOn : GoesOn before alone after) (edge : GraphEdge) :
    after.graph.joins edge = alone.graph.joins edge := by
  rw [Graph.joins, Graph.joins, goesOn.contains, goesOn.contains]

theorem hasEdge (goesOn : GoesOn before alone after) (lacks : before.Lacks path) (target : String) :
    after.graph.hasEdge ⟨GraphNode.fileId path, target, .imports⟩ =
      alone.graph.hasEdge ⟨GraphNode.fileId path, target, .imports⟩ := by
  rw [Bool.eq_iff_iff, Graph.hasEdge, Graph.hasEdge, List.contains_iff_mem, List.contains_iff_mem,
    goesOn.edges, List.mem_append]
  exact or_iff_right (lacks target)

theorem edges_addEdge (goesOn : GoesOn before alone after) (edge : GraphEdge) :
    (after.graph.addEdge edge).edges =
      before.graph.edges ++ (alone.graph.addEdge edge).edges := by
  unfold Graph.addEdge
  rw [goesOn.joins]
  split
  · rw [goesOn.edges, List.append_assoc]
  · exact goesOn.edges

theorem addEdge (goesOn : GoesOn before alone after) (edge : GraphEdge) :
    GoesOn before { alone with graph := alone.graph.addEdge edge }
      { after with graph := after.graph.addEdge edge } :=
  { goesOn with
    nodes := (after.graph.nodes_addEdge edge).trans goesOn.nodes
    known := fun id => (goesOn.known id).trans (alone.graph.contains_addEdge edge id).symm
    edges := goesOn.edges_addEdge edge }

theorem addImport (goesOn : GoesOn before alone after) (lacks : before.Lacks path)
    (binding : ImportBinding) :
    GoesOn before (alone.addImport path binding) (after.addImport path binding) := by
  have known : (fun candidate => after.graph.contains (GraphNode.fileId candidate)) =
      fun candidate => alone.graph.contains (GraphNode.fileId candidate) :=
    funext fun _ => goesOn.contains _
  unfold Linking.addImport
  rw [known]
  dsimp only
  split
  · exact { goesOn with importsUnresolved := congrArg (· + 1) goesOn.importsUnresolved }
  · next target _ =>
    rw [goesOn.hasEdge lacks]
    split
    · exact goesOn
    · have linked := goesOn.addEdge ⟨GraphNode.fileId path, GraphNode.fileId target, .imports⟩
      exact { linked with importsResolved := congrArg (· + 1) goesOn.importsResolved }

theorem addCall (goesOn : GoesOn before alone after) (call : CallSite) :
    GoesOn before (alone.addCall path call) (after.addCall path call) := by
  unfold Linking.addCall
  dsimp only
  rw [goesOn.joins]
  split
  · have linked := goesOn.addEdge (callEdge path call)
    exact { linked with callsResolved := congrArg (· + 1) goesOn.callsResolved }
  · exact { goesOn with callsUnresolved := congrArg (· + 1) goesOn.callsUnresolved }

theorem addOutline (goesOn : GoesOn before alone after) {file : String × Outline}
    (lacks : before.Lacks file.1) :
    GoesOn before (alone.addOutline file) (after.addOutline file) := by
  unfold Linking.addOutline
  refine List.foldl_rel ?_ fun call _ _ _ goesOn => goesOn.addCall call
  exact List.foldl_rel goesOn fun binding _ _ _ goesOn => goesOn.addImport lacks binding

end GoesOn

/-- What is new begins at the file or at a symbol in it. -/
def GrowsBy (path : String) (before after : Linking) : Prop :=
  ∀ edge ∈ after.graph.edges, edge ∈ before.graph.edges ∨ GraphNode.IsIdOf path edge.source

namespace GrowsBy

variable {path : String} {first second third : Linking}

theorem refl (path : String) (linking : Linking) : GrowsBy path linking linking := fun _ => .inl

theorem trans (head : GrowsBy path first second) (tail : GrowsBy path second third) :
    GrowsBy path first third :=
  fun edge member => (tail edge member).elim (head edge) .inr

theorem of_addEdge {edge : GraphEdge} (own : GraphNode.IsIdOf path edge.source)
    (grown : second.graph = first.graph.addEdge edge) : GrowsBy path first second := by
  intro other member
  rw [grown] at member
  unfold Graph.addEdge at member
  split at member
  · rcases List.mem_append.mp member with old | new
    · exact .inl old
    · rw [List.mem_singleton.mp new]
      exact .inr own
  · exact .inl member

/-- Other files have the imports that they had. -/
theorem lacks {other : String} (grows : GrowsBy path first second) (lacks : first.Lacks other)
    (different : path ≠ other) : second.Lacks other := by
  intro target member
  rcases grows _ member with old | own
  · exact lacks target old
  · exact different own.path_eq

end GrowsBy

theorem addImport_growsBy (linking : Linking) (path : String) (binding : ImportBinding) :
    GrowsBy path linking (linking.addImport path binding) := by
  unfold addImport
  dsimp only
  split
  · exact .refl path linking
  · split
    · exact .refl path linking
    · exact .of_addEdge (.inl rfl) rfl

theorem callEdge_source (path : String) (call : CallSite) :
    GraphNode.IsIdOf path (callEdge path call).source := by
  unfold callEdge
  split
  · next caller _ => exact .inr ⟨.function, caller, rfl⟩
  · exact .inl rfl

theorem addCall_growsBy (linking : Linking) (path : String) (call : CallSite) :
    GrowsBy path linking (linking.addCall path call) := by
  unfold addCall
  dsimp only
  split
  · exact .of_addEdge (callEdge_source path call) rfl
  · exact .refl path linking

theorem addOutline_growsBy (linking : Linking) (file : String × Outline) :
    GrowsBy file.1 linking (linking.addOutline file) := by
  have imported : GrowsBy file.1 linking
      ((file.2.imports.filter (·.isRelative)).foldl (addImport file.1) linking) :=
    List.foldlRecOn _ _ (.refl file.1 linking) fun between grows binding _ =>
      grows.trans (between.addImport_growsBy file.1 binding)
  exact List.foldlRecOn file.2.calls (addCall file.1) imported fun between grows call _ =>
    grows.trans (between.addCall_growsBy file.1 call)

/-- The links of files, each alone. -/
def ofFiles (nodes : List GraphNode) (files : List (String × Outline)) : Linking where
  graph := ⟨nodes, files.flatMap (ofFile nodes · |>.graph.edges)⟩
  importsResolved := (files.map (ofFile nodes · |>.importsResolved)).sum
  importsUnresolved := (files.map (ofFile nodes · |>.importsUnresolved)).sum
  callsResolved := (files.map (ofFile nodes · |>.callsResolved)).sum
  callsUnresolved := (files.map (ofFile nodes · |>.callsUnresolved)).sum

theorem GoesOn.start {before : Linking} {nodes : List GraphNode}
    (known : ∀ id, before.graph.contains id = (Graph.mk nodes []).contains id) :
    GoesOn before (.start ⟨nodes, []⟩) before :=
  ⟨rfl, known, (List.append_nil _).symm, rfl, rfl, rfl, rfl⟩

theorem GoesOn.cons {nodes : List GraphNode} {file : String × Outline}
    {files : List (String × Outline)} {before between after : Linking}
    (head : GoesOn before (ofFile nodes file) between)
    (tail : GoesOn between (ofFiles nodes files) after) :
    GoesOn before (ofFiles nodes (file :: files)) after where
  nodes := tail.nodes.trans head.nodes
  known id := by rw [head.known, ← head.contains, tail.known]; rfl
  edges := by rw [tail.edges, head.edges, List.append_assoc]; rfl
  importsResolved := by rw [tail.importsResolved, head.importsResolved, Nat.add_assoc]; rfl
  importsUnresolved := by rw [tail.importsUnresolved, head.importsUnresolved, Nat.add_assoc]; rfl
  callsResolved := by rw [tail.callsResolved, head.callsResolved, Nat.add_assoc]; rfl
  callsUnresolved := by rw [tail.callsUnresolved, head.callsUnresolved, Nat.add_assoc]; rfl

/-- Different files are linked as if each were alone. -/
theorem foldl_addOutline {nodes : List GraphNode} {files : List (String × Outline)}
    {before : Linking} (known : ∀ id, before.graph.contains id = (Graph.mk nodes []).contains id)
    (distinct : (files.map (·.1)).Nodup) (lacks : ∀ file ∈ files, before.Lacks file.1) :
    GoesOn before (ofFiles nodes files) (files.foldl addOutline before) := by
  induction files generalizing before with
  | nil => exact .start known
  | cons file files ih =>
    obtain ⟨fresh, distinct⟩ := List.nodup_cons.mp distinct
    have head : GoesOn before (ofFile nodes file) (before.addOutline file) :=
      (GoesOn.start known).addOutline (lacks file (List.mem_cons_self ..))
    refine head.cons (ih ?_ distinct ?_)
    · intro id
      rw [← known, Graph.contains, head.nodes]
      rfl
    · intro other member
      refine (before.addOutline_growsBy file).lacks (lacks other (List.mem_cons_of_mem _ member)) ?_
      intro same
      exact fresh (List.mem_map.mpr ⟨other, member, same.symm⟩)

end Linking

end CodeAtlas
