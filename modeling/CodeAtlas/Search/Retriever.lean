import CodeAtlas.Search.FileHint
import CodeAtlas.Search.Hit
import CodeAtlas.Text.Blank

namespace CodeAtlas

inductive SearchError where
  | emptyQuery
  /-- The embedder answered without a vector. -/
  | noVector
  | embedding (message : String)
  | dimension (error : DimensionError)
  deriving Repr, DecidableEq

namespace SearchError

def message : SearchError → String
  | emptyQuery => "Empty query"
  | noVector => "Embedder returned no vector for the query"
  | embedding message => "Vector store error: Embedding error: " ++ message
  | dimension error => "Vector store error: " ++ error.message

end SearchError

structure Retriever where
  index : VectorIndex
  graph : Option Graph

namespace Retriever

/-- How many records are considered for each result. -/
def candidatesPerResult : Nat := 3

/-- How many records are considered, at most as many as can be counted in 64 bits. -/
def candidateCount (limit : Nat) : Nat := min (limit * candidatesPerResult) (UInt64.size - 1)

/-- The result for a record at a rank of the vector search. -/
def hitAt (candidate : VectorIndex.Scored) (rank : Nat) : SearchHit where
  record := candidate.record
  score := 1.0 / (rank.toFloat32 + 1.0)
  similarity := candidate.score
  multiplier := 1.0
  path := FileHint.path? candidate.record.text

/-- The results for records in the order of the vector search. -/
def rankHits (candidates : List VectorIndex.Scored) : List SearchHit :=
  candidates.zipIdx.map fun (candidate, rank) => hitAt candidate rank

variable [Machine]

/-- The results as the graph orders them, if it is there and has nodes. -/
def rerank (graph : Option Graph) (hits : List SearchHit) : List SearchHit :=
  match graph with
  | some graph => if graph.isEmpty then hits else Boost.apply graph hits
  | none => hits

/-- The `limit` best results for a vector. -/
def nearest (retriever : Retriever) (vector : Embedding) (limit : Nat) :
    Except DimensionError (List SearchHit) := do
  let candidates ← retriever.index.query vector (candidateCount limit)
  return (rerank retriever.graph (rankHits candidates)).take limit

/-- Whether the vector of a query decides about its results. -/
def needsVector (retriever : Retriever) (query : String) (limit : Nat) : Bool :=
  !Text.isBlankText query && limit != 0 && !retriever.index.records.isEmpty

/-- The results for a query, of which the embedder said `answer`. -/
def search (retriever : Retriever) (query : String) (limit : Nat)
    (answer : Except SearchError (List Embedding)) : Except SearchError (List SearchHit) :=
  if Text.isBlankText query then .error .emptyQuery
  else if !retriever.needsVector query limit then .ok []
  else
    match answer with
    | .error error => .error error
    | .ok [] => .error .noVector
    | .ok (vector :: _) => (retriever.nearest vector limit).mapError .dimension

end Retriever

end CodeAtlas
