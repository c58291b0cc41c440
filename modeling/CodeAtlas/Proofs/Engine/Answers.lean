import CodeAtlas.Proofs.Cache.Holds
import CodeAtlas.Proofs.Engine.Run
import CodeAtlas.Proofs.Json.Quoted
import CodeAtlas.Proofs.Text.Colon

namespace CodeAtlas

/-- The key under which the answer to a question about an id is kept. -/
def GraphQuery.key (query : GraphQuery) (id : String) : String :=
  QueryCache.keyOf query.name (.string id)

theorem GraphQuery.colon_not_mem_name (query : GraphQuery) : ':' ∉ query.name.toList := by
  cases query <;> decide

theorem GraphQuery.name_injective {first second : GraphQuery} (same : first.name = second.name) :
    first = second := by
  cases first <;> cases second <;> first | rfl | exact absurd same (by decide)

/-- No two questions share a key. -/
theorem GraphQuery.key_injective {first second : GraphQuery} {id other : String}
    (same : first.key id = second.key other) : first = second ∧ id = other := by
  obtain ⟨names, quoted⟩ :=
    Text.colon_append_inj first.colon_not_mem_name second.colon_not_mem_name same
  simp only [Json.render] at quoted
  exact ⟨name_injective names, Json.quote_injective quoted⟩

namespace Engine

/-- Nodes that a graph answers, under the key of a question that they answer. -/
def IsAnswer (graph : Option Graph) (key : String) (nodes : List GraphNode) : Prop :=
  ∃ attached query id, graph = some attached ∧ key = GraphQuery.key query id ∧
    nodes = query.answer attached id

/-- Every answer that is kept is one that the graph gives. -/
def KeepsTruth (engine : Engine) : Prop :=
  ∀ key nodes, engine.queries.Holds key nodes → IsAnswer engine.retriever.graph key nodes

theorem KeepsTruth.congr {before after : Engine} (truth : KeepsTruth before)
    (same : SameAnswers before after) : KeepsTruth after := by
  unfold KeepsTruth
  rw [same.graph, same.queries]
  exact truth

theorem attach_keepsTruth (engine : Engine) (graph : Graph) : KeepsTruth (engine.attach graph) :=
  fun _ _ holds => absurd holds Cache.not_holds_clear

/-- What an engine that keeps the truth answers is what its graph says. -/
theorem KeepsTruth.ask {engine : Engine} (truth : KeepsTruth engine) (clock : Nat → Nat)
    (query : GraphQuery) (id : String) :
    (engine.askDuring clock query id).1 =
      (engine.retriever.graph.map (query.answer · id)).getD [] := by
  unfold askDuring
  cases attached : engine.retriever.graph with
  | none => rfl
  | some graph =>
    dsimp only
    split
    · next nodes queries found =>
      have value : (engine.queries.get (clock 0) (query.key id)).1 = some nodes := congrArg Prod.fst found
      have holds := Cache.holds_of_get value
      obtain ⟨source, asked, other, same, key, rfl⟩ := truth _ _ holds
      obtain ⟨rfl, rfl⟩ := GraphQuery.key_injective key
      obtain rfl := Option.some.inj (attached.symm.trans same)
      rfl
    · rfl

theorem KeepsTruth.after_ask {engine : Engine} (truth : KeepsTruth engine) (clock : Nat → Nat)
    (query : GraphQuery) (id : String) : KeepsTruth (engine.askDuring clock query id).2 := by
  intro key nodes holds
  rw [ask_graph]
  unfold askDuring at holds
  split at holds
  · exact truth key nodes holds
  · next graph attached =>
    -- Both branches go on with the cache as the look-up left it.
    have looked : ∀ key nodes,
        (QueryCache.find engine.queries (clock 0) query.name (.string id)).2.Holds key nodes →
          IsAnswer engine.retriever.graph key nodes :=
      fun key nodes holds => truth key nodes holds.of_get
    split at holds
    · next found =>
      rw [found] at looked
      exact looked key nodes holds
    · next found =>
      rw [found] at looked
      rcases Cache.Holds.of_set holds with ⟨rfl, rfl⟩ | kept
      · exact ⟨graph, query, id, attached, rfl, rfl⟩
      · exact looked key nodes kept

theorem KeepsTruth.after_restoreGraph {engine : Engine} (truth : KeepsTruth engine)
    (text : Option String) : KeepsTruth (engine.restoreGraph text).2 := by
  unfold restoreGraph
  split
  · exact attach_keepsTruth engine _
  · exact truth

/-- A graph that takes the place of another takes its answers away; nothing else that happens to an
engine changes either, but for the answers that are found anew. -/
theorem KeepsTruth.during {engine : Engine} (truth : KeepsTruth engine) (clock : Nat → Nat → Nat)
    (operation : Operation) : KeepsTruth (engine.during clock operation) := by
  cases operation with
  | build read files => exact attach_keepsTruth engine _
  | restore saved =>
    exact (truth.after_restoreGraph saved.graph).congr
      (engine.restore_sameAnswers (clock 0 0) saved)
  | loadEmbeddings text => exact truth.congr ⟨rfl, rfl⟩
  | index read files => exact truth.congr (engine.index_sameAnswers clock read files)
  | search query limit => exact truth.congr (engine.search_sameAnswers (clock 0) query limit)
  | ask query id => exact truth.after_ask (clock 0) query id

theorem KeepsTruth.duringAll {engine : Engine} (truth : KeepsTruth engine) (history : List Event) :
    KeepsTruth (engine.duringAll history) := by
  induction history generalizing engine with
  | nil => exact truth
  | cons event history ih => exact ih (truth.during event.1 event.2)

theorem new_keepsTruth (config : Config) (provider : Option Provider) :
    KeepsTruth (Engine.new config provider) :=
  fun _ _ holds => absurd holds (Cache.not_holds_new _ _)

/-- Whatever an engine was asked to do and however much time went by, it has the graph that was
attached last, and it answers each of the four questions as that graph does. -/
theorem ask_duringAll (config : Config) (provider : Option Provider) (history : List Event)
    (clock : Nat → Nat) (id : String) :
    let engine := (Engine.new config provider).duringAll history
    let answers (query : GraphQuery) := (engine.askDuring clock query id).1
    let nodes (named : Graph → String → List String) :=
      ((lastGraph history).map fun graph => (named graph id).filterMap graph.node?).getD []
    engine.retriever.graph = lastGraph history ∧
      answers .callers = nodes Graph.callersOf ∧ answers .callees = nodes Graph.calleesOf ∧
      answers .imports = nodes Graph.importsOf ∧ answers .importers = nodes Graph.importersOf := by
  intro engine answers nodes
  have attached : engine.retriever.graph = lastGraph history := duringAll_graph _ history
  have truth : KeepsTruth engine := (new_keepsTruth config provider).duringAll history
  have answered : ∀ query, answers query = nodes fun graph id => query.ids graph id := by
    intro query
    show (engine.askDuring clock query id).1 = _
    rw [truth.ask, attached]
    rfl
  exact ⟨attached, answered .callers, answered .callees, answered .imports, answered .importers⟩

end Engine

end CodeAtlas
