import CodeAtlas.Proofs.Engine.Sound

namespace CodeAtlas.Engine

variable {engine other : Engine} {config : Config} {known : List String}

structure Alike (config : Config) (known : List String) (engine other : Engine) : Prop where
  first : engine.Sound config known
  second : other.Sound config known
  retriever : engine.retriever = other.retriever

theorem Alike.symm (alike : Alike config known engine other) : Alike config known other engine :=
  ⟨alike.second, alike.first, alike.retriever.symm⟩

theorem Alike.trans {third : Engine} (head : Alike config known engine other)
    (tail : Alike config known other third) : Alike config known engine third :=
  ⟨head.first, tail.second, head.retriever.trans tail.retriever⟩

/-- What a search yields, whether or not the vector of the query is held. -/
theorem Sound.search [Machine] (sound : engine.Sound config known) (differ : Embedder.KeysDiffer known)
    {query : String} (listed : query ∈ known) (clock : Nat → Nat) (limit : Nat) :
    (engine.searchDuring clock query limit).1 = engine.retriever.search query limit
      (.ok (if engine.retriever.needsVector query limit
        then [Embedding.hash (max config.dimension 1) query] else [])) := by
  have asked : [query] ⊆ known := List.cons_subset.mpr ⟨listed, List.nil_subset known⟩
  unfold searchDuring
  split
  · show engine.retriever.search query limit
      (.ok (engine.embedder.embedDuring clock [query]).1) = _
    rw [sound.hashes.hashes.embedDuring differ asked, sound.dimension]
    rfl
  · rfl

theorem Alike.search [Machine] (alike : Alike config known engine other) (differ : Embedder.KeysDiffer known)
    {query : String} (listed : query ∈ known) (clock clock' : Nat → Nat) (limit : Nat) :
    (engine.searchDuring clock query limit).1 = (other.searchDuring clock' query limit).1 := by
  rw [alike.first.search differ listed, alike.second.search differ listed, alike.retriever]

theorem Alike.ask (alike : Alike config known engine other) (clock clock' : Nat → Nat)
    (query : GraphQuery) (id : String) :
    (engine.askDuring clock query id).1 = (other.askDuring clock' query id).1 := by
  rw [alike.first.truth.ask, alike.second.truth.ask, alike.retriever]

/-- The index after indexing depends on the index before and on the files. -/
theorem Alike.index (alike : Alike config known engine other) (differ : Embedder.KeysDiffer known)
    (clock clock' : Nat → Nat → Nat) {read : String → Reading} {files : List String}
    (listed : textsOf config.chunks read (files.map Path.normalize) ⊆ known) :
    (engine.indexDuring clock read files).2.retriever.index =
      (other.indexDuring clock' read files).2.retriever.index := by
  have set := (keeps_index engine clock read files).set _ alike.first.set
  have set' := (keeps_index other clock' read files).set _ alike.second.set
  refine VectorIndex.eq_of_records (set.trans set'.symm) ?_
  rw [alike.first.records_index listed differ, alike.second.records_index listed differ,
    alike.retriever]

theorem Alike.during (alike : Alike config known engine other) (differ : Embedder.KeysDiffer known)
    (clock clock' : Nat → Nat → Nat) {operation : Operation} (own : operation.isOwn = true)
    (listed : operation.texts config.chunks ⊆ known) :
    Alike config known (engine.during clock operation) (other.during clock' operation) := by
  refine ⟨alike.first.during differ clock own listed, alike.second.during differ clock' own listed,
    ?_⟩
  cases operation with
  | build read files =>
    exact congrArg (fun retriever : Retriever =>
      { retriever with graph := some (Graph.build (.ofFiles read) files).1 }) alike.retriever
  | restore saved => cases own
  | loadEmbeddings text => cases own
  | index read files =>
    have index := alike.index differ clock clock' listed
    have graph := (engine.index_sameAnswers clock read files).graph.trans
      ((congrArg Retriever.graph alike.retriever).trans
        (other.index_sameAnswers clock' read files).graph.symm)
    exact congrArg₂ Retriever.mk index graph
  | search query limit =>
    rw [engine.retriever_during clock rfl, other.retriever_during clock' rfl, alike.retriever]
  | ask query id =>
    rw [engine.retriever_during clock rfl, other.retriever_during clock' rfl, alike.retriever]

/-- The operations of a history that are not quiet. -/
def changes (history : List Event) : List Operation :=
  (history.filter (!·.2.isQuiet)).map (·.2)

/-- The engine after operations that take no time. -/
def changed (engine : Engine) (operations : List Operation) : Engine :=
  operations.foldl (fun engine operation => engine.during (fun _ _ => 0) operation) engine

/-- What was only asked for in a history does not show. -/
theorem Alike.changed {history : List Event} (alike : Alike config known engine other)
    (differ : Embedder.KeysDiffer known) (own : ∀ event ∈ history, event.2.isOwn = true)
    (listed : historyTexts config.chunks history ⊆ known) :
    Alike config known (engine.duringAll history) (other.changed (changes history)) := by
  induction history generalizing engine other with
  | nil => exact alike
  | cons event history ih =>
    obtain ⟨first, rest⟩ := List.forall_mem_cons.mp own
    obtain ⟨here, later⟩ := List.append_subset.mp listed
    by_cases quiet : event.2.isQuiet = true
    · have same : changes (event :: history) = changes history := by simp [changes, quiet]
      rw [same]
      -- Only the first engine moves, and its graph and index stay.
      refine ih ⟨alike.first.during differ event.1 first here, alike.second, ?_⟩ rest later
      exact (engine.retriever_during event.1 quiet).trans alike.retriever
    · have more : changes (event :: history) = event.2 :: changes history := by
        simp [changes, quiet]
      rw [more]
      exact ih (alike.during differ event.1 (fun _ _ => 0) first here) rest later

/-- The same changes, and in between each engine was asked for other things. -/
theorem Alike.duringAll {history history' : List Event} (alike : Alike config known engine other)
    (differ : Embedder.KeysDiffer known) (own : ∀ event ∈ history ++ history', event.2.isOwn = true)
    (listed : historyTexts config.chunks (history ++ history') ⊆ known)
    (same : changes history = changes history') :
    Alike config known (engine.duringAll history) (other.duringAll history') := by
  obtain ⟨own, own'⟩ := List.forall_mem_append.mp own
  rw [historyTexts, List.flatMap_append] at listed
  obtain ⟨listed, listed'⟩ := List.append_subset.mp listed
  have first := alike.changed differ own listed
  have second := Alike.changed ⟨alike.second, alike.second, rfl⟩ differ own' listed'
  rw [same] at first
  exact first.trans second.symm

end CodeAtlas.Engine
