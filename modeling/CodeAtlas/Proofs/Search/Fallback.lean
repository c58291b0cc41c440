import CodeAtlas.Proofs.Search.Selection

namespace CodeAtlas

namespace Retriever

variable {retriever : Retriever} {vector : Embedding} {limit : Nat}

theorem take_rankHits (candidates : List VectorIndex.Scored) (limit : Nat) :
    (rankHits candidates).take limit = rankHits (candidates.take limit) := by
  apply List.ext_getElem?
  intro rank
  simp only [getElem?_rankHits, List.getElem?_take]
  split <;> rfl

section Bare

variable [Machine]

/-- Only a graph with nodes changes the order of the results. -/
theorem rerank_of_no_nodes {graph : Option Graph} (bare : ∀ attached ∈ graph, attached.nodes = [])
    (hits : List SearchHit) : rerank graph hits = hits := by
  cases graph with
  | none => rfl
  | some attached =>
    have nothing : attached.isEmpty = true := List.isEmpty_iff.mpr (bare attached rfl)
    exact if_pos nothing

/-- The first records of a ranking are found among the more that are considered. -/
theorem take_candidates (bounded : limit < UInt64.size) :
    (retriever.candidates vector limit).take limit =
      (retriever.index.ranking vector).take limit := by
  rw [Retriever.candidates, List.take_take, Nat.min_eq_left (le_candidateCount bounded)]

theorem best_of_no_nodes (bare : ∀ attached ∈ retriever.graph, attached.nodes = [])
    (bounded : limit < UInt64.size) :
    retriever.best vector limit = rankHits ((retriever.index.ranking vector).take limit) := by
  rw [best, rerank_of_no_nodes bare, take_rankHits, take_candidates bounded]

/-- Without a graph, or with one without nodes, a search for any text but a blank one yields the
records that the index yields for the vector of the text, as many as were asked for, in the same
order and as near. Each has the score of its rank, and no factor. The more records that were
considered begin with them. -/
theorem search_falls_back (retriever : Retriever) (query : String) (vector : Embedding)
    (others : List Embedding) (limit : Nat) (asked : Text.isBlankText query = false)
    (suits : retriever.index.Suits vector.length) (bounded : limit < UInt64.size)
    (bare : ∀ attached ∈ retriever.graph, attached.nodes = []) :
    ∃ found considered, retriever.index.query vector limit = .ok found ∧
      retriever.index.query vector (min (3 * limit) (UInt64.size - 1)) = .ok considered ∧
      found = considered.take limit ∧
      retriever.search query limit (.ok (vector :: others)) =
        .ok (found.zipIdx.map fun (scored, rank) =>
          { record := scored.record
            score := 1.0 / (rank.toFloat32 + 1.0)
            similarity := scored.score
            multiplier := 1.0
            path := FileHint.path? scored.record.text }) := by
  have enough : limit ≤ min (3 * limit) (UInt64.size - 1) := by omega
  refine ⟨_, _, VectorIndex.query_eq suits limit, VectorIndex.query_eq suits _, ?_, ?_⟩
  · rw [List.take_take, Nat.min_eq_left enough]
  · rw [search_eq asked suits, best_of_no_nodes bare bounded]
    rfl

end Bare

/-- Two records that are equally near, and a graph of nothing: the one that came in first is found. -/
theorem search_falls_back_tied :
    let records : List IndexRecord :=
      [⟨"a.ts:1:1", "File: a.ts\none", [], [1]⟩, ⟨"b.ts:1:1", "File: b.ts\none", [], [1]⟩]
    let index : VectorIndex := { dimension := some 1, records, places := .ofList (by decide) }
    let retriever : Retriever := ⟨index, some ⟨[], []⟩⟩
    Text.isBlankText "one" = false ∧ index.Suits 1 ∧
      (∀ attached ∈ retriever.graph, attached.nodes = []) ∧
      ∃ hits, retriever.search "one" 1 (.ok [[1]]) = .ok hits ∧
        hits.map (·.record.id) = ["a.ts:1:1"] := by
  intro records index retriever
  have asked : Text.isBlankText "one" = false := by decide +kernel
  have suits : index.Suits 1 := fun expected set => (Option.some.inj set).symm
  have bare : ∀ attached ∈ retriever.graph, attached.nodes = [] := by
    rintro attached ⟨⟩
    rfl
  obtain ⟨found, _, here, _, _, hits⟩ :=
    search_falls_back retriever "one" [1] [] 1 asked suits (by decide) bare
  have ranked : (index.ranking [1]).map (·.record.id) = ["a.ts:1:1", "b.ts:1:1"] := by
    have tied : index.ranking [1] = records.map fun record =>
        ⟨record, Embedding.cosine [1] record.embedding⟩ :=
      Embedding.sortByScore_of_pairwise (by decide +kernel)
    rw [tied]
    rfl
  have first : found.map (·.record.id) = ["a.ts:1:1"] := by
    obtain rfl := Except.ok.inj ((VectorIndex.query_eq suits 1).symm.trans here)
    rw [List.map_take, ranked]
    rfl
  refine ⟨asked, suits, bare, _, hits, ?_⟩
  rw [List.map_map, ← first]
  exact Embedding.map_zipIdx fun _ => rfl

end Retriever

end CodeAtlas
