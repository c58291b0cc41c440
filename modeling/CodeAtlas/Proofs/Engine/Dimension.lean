import CodeAtlas.Proofs.Engine.Indexing
import CodeAtlas.Proofs.Search.Nearest

namespace CodeAtlas.Engine

variable {engine : Engine}

/-- The index has no other dimension than the embedder, and neither has any of its vectors. -/
structure Agrees (engine : Engine) : Prop where
  fits : engine.Fits
  uniform : engine.retriever.index.Uniform

theorem new_agrees (config : Config) (provider : Option Provider) :
    (new config provider).Agrees where
  fits := new_fits config provider
  uniform := fun _ nothing => nomatch nothing

theorem Agrees.length (agrees : engine.Agrees) {record : IndexRecord}
    (member : record ∈ engine.retriever.index.records) :
    record.embedding.length = engine.embedder.dimension :=
  agrees.fits _ (agrees.uniform record member)

/-- It only depends on the index and on the dimension of the embedder. -/
theorem Agrees.congr {after : Engine} (agrees : engine.Agrees)
    (index : after.retriever.index = engine.retriever.index)
    (dimension : after.embedder.dimension = engine.embedder.dimension) : after.Agrees := by
  obtain ⟨fits, uniform⟩ := agrees
  refine ⟨?_, ?_⟩
  · unfold Fits
    rw [index, dimension]
    exact fits
  · rw [index]
    exact uniform

theorem Agrees.index (agrees : engine.Agrees) (clock : Nat → Nat → Nat) (read : String → Reading)
    (files : List String) : (engine.indexDuring clock read files).2.Agrees where
  fits := (agrees.fits.index clock read files).2
  uniform := (keeps_index engine clock read files).uniform agrees.uniform

theorem dimension_embedDuring (embedder : Embedder) (clock : Nat → Nat) (texts : List String) :
    (embedder.embedDuring clock texts).2.dimension = embedder.dimension := by
  rw [Embedder.embedDuring_eq]

theorem searchDuring_retriever (engine : Engine) (clock : Nat → Nat) (query : String) (limit : Nat) :
    (engine.searchDuring clock query limit).2.retriever = engine.retriever := by
  unfold searchDuring
  split <;> rfl

theorem searchDuring_dimension (engine : Engine) (clock : Nat → Nat) (query : String)
    (limit : Nat) :
    (engine.searchDuring clock query limit).2.embedder.dimension = engine.embedder.dimension := by
  unfold searchDuring
  split
  · exact dimension_embedDuring ..
  · rfl

theorem askDuring_same (engine : Engine) (clock : Nat → Nat) (query : GraphQuery) (id : String) :
    (engine.askDuring clock query id).2.retriever = engine.retriever ∧
      (engine.askDuring clock query id).2.embedder = engine.embedder := by
  unfold askDuring
  split
  · exact ⟨rfl, rfl⟩
  · split <;> exact ⟨rfl, rfl⟩

theorem Agrees.restoreIndex (agrees : engine.Agrees) (text : Option String) :
    (engine.restoreIndex text).2.Agrees := by
  unfold Engine.restoreIndex
  split
  · next index read =>
    split
    · next accepted =>
      obtain ⟨saved, rfl, loaded⟩ := Option.map_eq_some_iff.mp read
      refine ⟨fun expected set => ?_, VectorIndex.load_uniform loaded⟩
      have same := Option.all_eq_true .. |>.mp accepted expected set
      exact beq_iff_eq.mp same
    · exact agrees
  · exact agrees

theorem Agrees.restore (agrees : engine.Agrees) (now : Nat) (saved : SavedState) :
    (engine.restore now saved).2.Agrees := by
  have graph : (engine.restoreGraph saved.graph).2.Agrees := by
    unfold restoreGraph
    split
    · exact agrees.congr rfl rfl
    · exact agrees
  exact (graph.restoreIndex saved.vectors).congr rfl rfl

theorem Agrees.during (agrees : engine.Agrees) (clock : Nat → Nat → Nat) (operation : Operation) :
    (engine.during clock operation).Agrees := by
  cases operation with
  | build read files => exact agrees.congr rfl rfl
  | restore saved => exact agrees.restore (clock 0 0) saved
  | loadEmbeddings text => exact agrees.congr rfl rfl
  | index read files => exact agrees.index clock read files
  | search query limit =>
    have same := engine.searchDuring_retriever (clock 0) query limit
    exact agrees.congr (congrArg Retriever.index same)
      (engine.searchDuring_dimension (clock 0) query limit)
  | ask query id =>
    obtain ⟨retriever, embedder⟩ := engine.askDuring_same (clock 0) query id
    exact agrees.congr (congrArg Retriever.index retriever) (congrArg Embedder.dimension embedder)

theorem Agrees.duringAll (agrees : engine.Agrees) (history : List Event) :
    (engine.duringAll history).Agrees := by
  induction history generalizing engine with
  | nil => exact agrees
  | cons event history ih => exact ih (agrees.during event.1 event.2)

/-- A search for anything but blanks yields what is best for the vector that the embedder finds. -/
theorem Fits.search [Machine] (fits : engine.Fits) (clock : Nat → Nat) {query : String}
    (asked : Text.isBlankText query = false) (limit : Nat) :
    ∃ vector, (engine.embedder.embedDuring clock [query]).1 = [vector] ∧
      (engine.searchDuring clock query limit).1 = .ok (engine.retriever.best vector limit) := by
  obtain ⟨count, lengths⟩ := engine.embedder.embedDuring_shape clock [query]
  obtain ⟨vector, computed⟩ := List.length_eq_one_iff.mp count
  have length := lengths vector (computed ▸ List.mem_singleton_self vector)
  refine ⟨vector, computed, ?_⟩
  unfold searchDuring
  cases needed : engine.retriever.needsVector query limit with
  | true =>
    show engine.retriever.search query limit (.ok (engine.embedder.embedDuring clock [query]).1) = _
    rw [computed]
    exact Retriever.search_eq asked (length ▸ fits) [] limit
  | false => exact Retriever.search_eq_of_not_needed asked needed vector (.ok [])

/-- Whatever was done to an engine, be it that it took up what others left, indexing goes through, unless
there is a file whose lines cannot be counted, and a search only fails if it asks for nothing; and all
vectors that are indexed have the dimension that the embedder had from the first. -/
theorem dimensions_agree [Machine] (config : Config) (provider : Option Provider) (history : List Event) :
    let engine := (new config provider).duringAll history
    (∀ clock read files, Ends engine.config.chunks read files (engine.indexDuring clock read files).1) ∧
      (∀ clock query limit, if Text.isBlankText query
        then (engine.searchDuring clock query limit).1 = .error .emptyQuery
        else ∃ hits, (engine.searchDuring clock query limit).1 = .ok hits) ∧
      ∀ record ∈ engine.retriever.index.records,
        record.embedding.length = engine.embedder.dimension := by
  intro engine
  have agrees : engine.Agrees := (new_agrees config provider).duringAll history
  refine ⟨fun clock read files => (agrees.fits.index clock read files).1, ?_,
    fun record member => agrees.length member⟩
  intro clock query limit
  split
  · next blank => simp [searchDuring, Retriever.needsVector, Retriever.search, blank]
  · next asked =>
    obtain ⟨vector, _, found⟩ := agrees.fits.search clock (Bool.eq_false_iff.mpr asked) limit
    exact ⟨_, found⟩

end CodeAtlas.Engine
