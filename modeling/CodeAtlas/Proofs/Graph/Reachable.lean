import CodeAtlas.Proofs.Graph.Files
import Mathlib.Data.List.Nodup

namespace CodeAtlas.Graph

inductive Step where
  | addNode (node : GraphNode)
  | addEdge (edge : GraphEdge)

def after (graph : Graph) : Step → Graph
  | .addNode node => graph.addNode node
  | .addEdge edge => graph.addEdge edge

def afterAll (graph : Graph) (steps : List Step) : Graph := steps.foldl after graph

structure WellFormed (graph : Graph) : Prop where
  distinct : (graph.nodes.map (·.id)).Nodup
  joined : ∀ edge ∈ graph.edges, graph.joins edge = true

namespace WellFormed

variable {graph : Graph}

theorem empty : WellFormed empty := ⟨List.nodup_nil, by simp [Graph.empty]⟩

theorem addNode (wellFormed : graph.WellFormed) (node : GraphNode) :
    (graph.addNode node).WellFormed := by
  constructor
  · unfold Graph.addNode
    split
    · exact wellFormed.distinct
    · next fresh =>
      rw [contains_eq_true_iff, ← List.mem_map] at fresh
      rw [← List.concat_eq_append, List.map_concat]
      exact wellFormed.distinct.concat fresh
  · intro edge member
    rw [edges_addNode] at member
    obtain ⟨source, target⟩ := Bool.and_eq_true_iff.mp (wellFormed.joined edge member)
    rw [joins, Bool.and_eq_true, contains_addNode, contains_addNode]
    exact ⟨.inl source, .inl target⟩

theorem addEdge (wellFormed : graph.WellFormed) (edge : GraphEdge) :
    (graph.addEdge edge).WellFormed := by
  unfold Graph.addEdge
  split
  · next joined =>
    refine ⟨wellFormed.distinct, fun other member => ?_⟩
    rcases List.mem_append.mp member with old | new
    · exact wellFormed.joined other old
    · rw [List.mem_singleton.mp new]
      exact joined
  · exact wellFormed

theorem after (wellFormed : graph.WellFormed) (step : Step) : (graph.after step).WellFormed := by
  cases step with
  | addNode node => exact wellFormed.addNode node
  | addEdge edge => exact wellFormed.addEdge edge

theorem afterAll (wellFormed : graph.WellFormed) (steps : List Step) :
    (graph.afterAll steps).WellFormed := by
  induction steps generalizing graph with
  | nil => exact wellFormed
  | cons step steps ih => exact ih (wellFormed.after step)

end WellFormed

end CodeAtlas.Graph
