import CodeAtlas.Engine.Basic

namespace CodeAtlas.Engine

/-- Something that an engine is asked to do. The files and what is left of an earlier engine may
change from one operation to the next. -/
inductive Operation where
  | build (read : String → Reading) (files : List String)
  | restore (saved : SavedState)
  | loadEmbeddings (text : Option String)
  | index (read : String → Reading) (files : List String)
  | search (query : String) (limit : Nat)
  | ask (query : GraphQuery) (id : String)

/-- The engine after an operation during which time passes, whether it fails or not. Files that are
indexed have readings of the clock of their own; all else has those of the first. -/
def during (engine : Engine) (clock : Nat → Nat → Nat) : Operation → Engine
  | .build read files => (engine.build read files).2
  | .restore saved => (engine.restore (clock 0 0) saved).2
  | .loadEmbeddings text => (engine.loadEmbeddings (clock 0 0) text).2
  | .index read files => (engine.indexDuring clock read files).2
  | .search query limit => (engine.searchDuring (clock 0) query limit).2
  | .ask query id => (engine.askDuring (clock 0) query id).2

/-- An operation and what the clock shows in the meantime. -/
abbrev Event := (Nat → Nat → Nat) × Operation

/-- The engine after operations during which time passes. -/
def duringAll (engine : Engine) (history : List Event) : Engine :=
  history.foldl (fun engine event => engine.during event.1 event.2) engine

/-- The graph that an operation leaves behind: one that it built or could read, else the one that
was there. -/
def Operation.graphAfter (graph : Option Graph) : Operation → Option Graph
  | .build read files => some (Graph.build (.ofFiles read) files).1
  | .restore saved => ((saved.graph.bind Graph.load?).map (·.graph)).or graph
  | _ => graph

/-- The graph that operations leave behind if there is none at first. -/
def lastGraph (history : List Event) : Option Graph :=
  history.foldl (fun graph event => event.2.graphAfter graph) none

/-- The graph and the answers that are kept are as they were. -/
structure SameAnswers (before after : Engine) : Prop where
  graph : after.retriever.graph = before.retriever.graph
  queries : after.queries = before.queries

theorem SameAnswers.trans {first second third : Engine} (head : SameAnswers first second)
    (tail : SameAnswers second third) : SameAnswers first third :=
  ⟨tail.graph.trans head.graph, tail.queries.trans head.queries⟩

theorem Indexing.takeChunks_sameAnswers (indexing : Indexing) (clock : Nat → Nat) (path : String)
    (chunks : List Chunk) :
    SameAnswers indexing.engine (indexing.takeChunks clock path chunks).2.engine := by
  unfold Indexing.takeChunks
  split
  · exact ⟨rfl, rfl⟩
  · dsimp only
    split <;> exact ⟨rfl, rfl⟩

theorem Indexing.take_sameAnswers (indexing : Indexing) (clock : Nat → Nat)
    (read : String → Reading) (path : String) :
    SameAnswers indexing.engine (indexing.take clock read path).2.engine := by
  unfold Indexing.take
  split
  · exact indexing.takeChunks_sameAnswers clock path _
  · exact ⟨rfl, rfl⟩
  · exact ⟨rfl, rfl⟩

/-- What holds after each file if it held before holds after all of them, or where they fail. -/
theorem Indexing.takeAll_induction {motive : Engine → Prop} {read : String → Reading}
    {files : List String}
    (step : ∀ file ∈ files, ∀ (indexing : Indexing) (clock : Nat → Nat), motive indexing.engine →
      motive (indexing.take clock read (Path.normalize file)).2.engine)
    (clock : Nat → Nat → Nat) (i : Nat) {indexing : Indexing} (start : motive indexing.engine) :
    motive (Indexing.takeAll clock read i files indexing).2.engine := by
  induction files generalizing i indexing with
  | nil => exact start
  | cons file files ih =>
    have first := step file List.mem_cons_self indexing (clock i) start
    unfold Indexing.takeAll
    split
    · next taken =>
      rw [taken] at first
      exact ih (fun other member => step other (List.mem_cons_of_mem _ member)) (i + 1) first
    · next taken =>
      rw [taken] at first
      exact first

theorem Indexing.takeAll_sameAnswers (clock : Nat → Nat → Nat) (read : String → Reading) (i : Nat)
    (files : List String) (indexing : Indexing) :
    SameAnswers indexing.engine (Indexing.takeAll clock read i files indexing).2.engine :=
  takeAll_induction (fun _ _ _ _ same => same.trans (take_sameAnswers ..)) clock i ⟨rfl, rfl⟩

/-- Whether indexing fails or not, the engine is what it was when the last file was looked at. -/
theorem indexDuring_engine (engine : Engine) (clock : Nat → Nat → Nat) (read : String → Reading)
    (files : List String) :
    (engine.indexDuring clock read files).2 =
      (Indexing.takeAll clock read 0 files ⟨engine, 0, 0, []⟩).2.engine := by
  unfold indexDuring
  split
  · next run => rw [run]
  · next run => rw [run]

/-- Indexing has to do with neither the graph nor the answers about it, even if it fails. -/
theorem index_sameAnswers (engine : Engine) (clock : Nat → Nat → Nat) (read : String → Reading)
    (files : List String) : SameAnswers engine (engine.indexDuring clock read files).2 := by
  rw [indexDuring_engine]
  exact Indexing.takeAll_sameAnswers clock read 0 files ⟨engine, 0, 0, []⟩

theorem search_sameAnswers (engine : Engine) (clock : Nat → Nat) (query : String) (limit : Nat) :
    SameAnswers engine (engine.searchDuring clock query limit).2 := by
  unfold searchDuring
  split <;> exact ⟨rfl, rfl⟩

theorem restoreIndex_sameAnswers (engine : Engine) (text : Option String) :
    SameAnswers engine (engine.restoreIndex text).2 := by
  unfold restoreIndex
  split
  · split <;> exact ⟨rfl, rfl⟩
  · exact ⟨rfl, rfl⟩

/-- What is restored after the graph leaves it and the answers about it alone. -/
theorem restore_sameAnswers (engine : Engine) (now : Nat) (saved : SavedState) :
    SameAnswers (engine.restoreGraph saved.graph).2 (engine.restore now saved).2 := by
  have vectors := restoreIndex_sameAnswers (engine.restoreGraph saved.graph).2 saved.vectors
  exact vectors.trans ⟨rfl, rfl⟩

theorem ask_graph (engine : Engine) (clock : Nat → Nat) (query : GraphQuery) (id : String) :
    (engine.askDuring clock query id).2.retriever.graph = engine.retriever.graph := by
  unfold askDuring
  split
  · rfl
  · split <;> rfl

theorem during_graph (engine : Engine) (clock : Nat → Nat → Nat) (operation : Operation) :
    (engine.during clock operation).retriever.graph =
      operation.graphAfter engine.retriever.graph := by
  cases operation with
  | build read files => rfl
  | restore saved =>
    simp only [during, (engine.restore_sameAnswers (clock 0 0) saved).graph, restoreGraph,
      Operation.graphAfter]
    split
    · next loaded => rw [loaded]; rfl
    · next failed => rw [failed]; rfl
  | loadEmbeddings text => rfl
  | index read files => exact (engine.index_sameAnswers clock read files).graph
  | search query limit => exact (engine.search_sameAnswers (clock 0) query limit).graph
  | ask query id => exact engine.ask_graph (clock 0) query id

theorem duringAll_graph (engine : Engine) (history : List Event) :
    (engine.duringAll history).retriever.graph =
      history.foldl (fun graph event => event.2.graphAfter graph) engine.retriever.graph := by
  induction history generalizing engine with
  | nil => rfl
  | cons event history ih =>
    simp only [duringAll, List.foldl_cons] at ih ⊢
    rw [ih, during_graph]

end CodeAtlas.Engine
