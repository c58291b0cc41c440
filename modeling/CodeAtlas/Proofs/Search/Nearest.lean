import CodeAtlas.Proofs.Index.Ranking
import CodeAtlas.Search.Retriever

namespace CodeAtlas

namespace Retriever

variable [Machine] {retriever : Retriever} {query : String} {vector : Embedding} {limit : Nat}

/-- The records that a search considers, and how near they are. -/
def candidates (retriever : Retriever) (vector : Embedding) (limit : Nat) :
    List VectorIndex.Scored :=
  (retriever.index.ranking vector).take (candidateCount limit)

/-- The results for a vector of the right dimension. -/
def best (retriever : Retriever) (vector : Embedding) (limit : Nat) : List SearchHit :=
  (rerank retriever.graph (rankHits (retriever.candidates vector limit))).take limit

theorem nearest_eq (suits : retriever.index.Suits vector.length) (limit : Nat) :
    retriever.nearest vector limit = .ok (retriever.best vector limit) := by
  unfold nearest
  rw [VectorIndex.query_eq suits]
  rfl

theorem best_zero (retriever : Retriever) (vector : Embedding) : retriever.best vector 0 = [] :=
  List.take_zero

theorem best_of_empty (empty : retriever.index.records = []) (vector : Embedding) (limit : Nat) :
    retriever.best vector limit = [] := by
  have none : retriever.index.ranking vector = [] := by
    simp [VectorIndex.ranking, empty, Embedding.sortByScore]
  have unranked : rerank retriever.graph [] = [] := by
    unfold rerank Boost.apply Boost.raise
    cases retriever.graph with
    | none => rfl
    | some graph => simp [Embedding.sortByScore]
  rw [best, candidates, none, List.take_nil, rankHits, List.zipIdx_nil, List.map_nil, unranked,
    List.take_nil]

theorem best_of_not_needed (asked : Text.isBlankText query = false)
    (unneeded : retriever.needsVector query limit = false) (vector : Embedding) :
    retriever.best vector limit = [] := by
  simp only [needsVector, asked, Bool.not_false, Bool.true_and, Bool.and_eq_false_iff,
    bne_eq_false_iff_eq, Bool.not_eq_false'] at unneeded
  rcases unneeded with rfl | empty
  · exact best_zero retriever vector
  · exact best_of_empty (List.isEmpty_iff.mp empty) vector limit

/-- Any query but a blank one is answered. -/
theorem search_eq (asked : Text.isBlankText query = false)
    (suits : retriever.index.Suits vector.length) (others : List Embedding) (limit : Nat) :
    retriever.search query limit (.ok (vector :: others)) = .ok (retriever.best vector limit) := by
  unfold search
  rw [asked]
  cases needed : retriever.needsVector query limit with
  | false =>
    rw [best_of_not_needed asked needed]
    rfl
  | true =>
    simp only [nearest_eq suits]
    rfl

theorem search_eq_of_not_needed (asked : Text.isBlankText query = false)
    (unneeded : retriever.needsVector query limit = false) (vector : Embedding)
    (answer : Except SearchError (List Embedding)) :
    retriever.search query limit answer = .ok (retriever.best vector limit) := by
  rw [best_of_not_needed asked unneeded]
  simp [search, asked, unneeded]

end Retriever

end CodeAtlas
