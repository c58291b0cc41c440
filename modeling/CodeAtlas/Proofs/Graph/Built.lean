import CodeAtlas.Proofs.Graph.Reachable

namespace CodeAtlas

namespace Graph

variable {graph : Graph}

theorem WellFormed.addSymbol (wellFormed : graph.WellFormed) (path : String) (symbol : Declared) :
    (graph.addSymbol path symbol).WellFormed := by
  unfold Graph.addSymbol
  dsimp only
  split
  · exact wellFormed
  · exact (wellFormed.addNode _).addEdge _

theorem WellFormed.addFile (wellFormed : graph.WellFormed) (path : String) (outline : Outline) :
    (graph.addFile path outline).WellFormed := by
  unfold Graph.addFile
  exact List.foldlRecOn (motive := WellFormed) _ _ (wellFormed.addNode _)
    fun _ sofar symbol _ => sofar.addSymbol path symbol

end Graph

theorem Draft.take_wellFormed {draft : Draft} (wellFormed : draft.graph.WellFormed)
    (project : Project) (path : String) : (draft.take project path).graph.WellFormed := by
  unfold Draft.take
  split
  · exact wellFormed
  · dsimp only
    split
    · unfold Draft.addSource
      split
      · exact wellFormed.addFile ..
      · exact wellFormed.addFile ..
    · exact wellFormed

namespace Linking

variable {linking : Linking}

theorem addImport_wellFormed (wellFormed : linking.graph.WellFormed) (path : String)
    (binding : ImportBinding) : (linking.addImport path binding).graph.WellFormed := by
  unfold addImport
  dsimp only
  split
  · exact wellFormed
  · split
    · exact wellFormed
    · exact wellFormed.addEdge _

theorem addCall_wellFormed (wellFormed : linking.graph.WellFormed) (path : String)
    (call : CallSite) : (linking.addCall path call).graph.WellFormed := by
  unfold addCall
  dsimp only
  split
  · exact wellFormed.addEdge _
  · exact wellFormed

theorem addOutline_wellFormed (wellFormed : linking.graph.WellFormed) (file : String × Outline) :
    (linking.addOutline file).graph.WellFormed := by
  unfold addOutline
  refine List.foldlRecOn (motive := fun linking : Linking => linking.graph.WellFormed) _ _ ?_
    fun _ sofar call _ => addCall_wellFormed sofar file.1 call
  exact List.foldlRecOn (motive := fun linking : Linking => linking.graph.WellFormed) _ _ wellFormed
    fun _ sofar binding _ => addImport_wellFormed sofar file.1 binding

end Linking

theorem Graph.build_wellFormed (project : Project) (files : List String) :
    (build project files).1.WellFormed := by
  have drafted : (draft project files).graph.WellFormed :=
    List.foldlRecOn (motive := fun draft : Draft => draft.graph.WellFormed) files _ .empty
      fun _ sofar file _ => Draft.take_wellFormed sofar project (Path.normalize file)
  exact List.foldlRecOn (motive := fun linking : Linking => linking.graph.WellFormed) _ _ drafted
    fun _ sofar file _ => Linking.addOutline_wellFormed sofar file

end CodeAtlas
