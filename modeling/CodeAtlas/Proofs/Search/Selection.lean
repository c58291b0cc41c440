import CodeAtlas.Proofs.Search.Nearest

namespace CodeAtlas

namespace Retriever

open CodeAtlas.Embedding (Precedes map_zipIdx)

variable {graph : Option Graph} {candidates : List VectorIndex.Scored} {hit : SearchHit}
  {number : Nat}

/-- The results with the scores that decide about their order. -/
def scored (graph : Option Graph) (hits : List SearchHit) : List SearchHit :=
  match graph with
  | some graph => if graph.isEmpty then hits else Boost.raise graph hits
  | none => hits

/-- A result says which record the candidate with a number is, and how near that is. -/
def IsResultOf (candidates : List VectorIndex.Scored) (hit : SearchHit) (number : Nat) : Prop :=
  ∃ candidate, candidates[number]? = some candidate ∧ hit.record = candidate.record ∧
    hit.similarity = candidate.score

theorem getElem?_rankHits (candidates : List VectorIndex.Scored) (number : Nat) :
    (rankHits candidates)[number]? = candidates[number]?.map (hitAt · number) := by
  simp only [rankHits, List.getElem?_map, List.getElem?_zipIdx, Option.map_map, Nat.zero_add]
  rfl

theorem isResultOf_rankHits (found : (rankHits candidates)[number]? = some hit) :
    IsResultOf candidates hit number := by
  rw [getElem?_rankHits] at found
  obtain ⟨candidate, listed, rfl⟩ := Option.map_eq_some_iff.mp found
  exact ⟨candidate, listed, rfl, rfl⟩

/-- The graph changes scores and nothing else. -/
theorem isResultOf_scored (found : (scored graph (rankHits candidates))[number]? = some hit) :
    IsResultOf candidates hit number := by
  unfold scored at found
  split at found
  · split at found
    · exact isResultOf_rankHits found
    · simp only [Boost.raise, List.getElem?_map, List.getElem?_zipIdx, Option.map_map,
        Option.map_eq_some_iff] at found
      obtain ⟨plain, listed, rfl⟩ := found
      have result : IsResultOf candidates plain number := isResultOf_rankHits listed
      exact result
  · exact isResultOf_rankHits found

theorem records_scored (graph : Option Graph) (candidates : List VectorIndex.Scored) :
    (scored graph (rankHits candidates)).map (·.record) = candidates.map (·.record) := by
  have plain : (rankHits candidates).map (·.record) = candidates.map (·.record) := by
    rw [rankHits, List.map_map]
    exact map_zipIdx fun _ => rfl
  unfold scored
  split
  · split
    · exact plain
    · rw [Boost.raise, List.map_map, ← plain]
      exact map_zipIdx fun _ => rfl
  · exact plain

/-- The results in the order in which they are shown, each with its place in the order of the vector
search. -/
theorem exists_rerank [Machine] (graph : Option Graph) (hits : List SearchHit) :
    ∃ order : List (SearchHit × Nat), order.Perm (scored graph hits).zipIdx ∧
      order.map (·.1) = rerank graph hits ∧
      ∀ attached, graph = some attached → attached.isEmpty = false →
        order.Pairwise (Precedes SearchHit.score) := by
  have unsorted : (hits.zipIdx).map (·.1) = hits := List.zipIdx_map_fst 0 hits
  cases graph with
  | none => exact ⟨hits.zipIdx, .refl _, unsorted, fun _ nothing => nomatch nothing⟩
  | some graph =>
    cases empty : graph.isEmpty with
    | true =>
      simp only [scored, rerank, empty, if_true]
      refine ⟨hits.zipIdx, .refl _, unsorted, ?_⟩
      rintro attached same nodes
      obtain rfl := Option.some.inj same
      cases empty.symm.trans nodes
    | false =>
      simp only [scored, rerank, empty, Bool.false_eq_true, if_false]
      obtain ⟨order, perm, sorted, ordered⟩ :=
        Embedding.exists_order SearchHit.score (Boost.raise graph hits)
      exact ⟨order, perm, sorted, fun _ _ _ => ordered⟩

section Order

variable {order : List (SearchHit × Nat)}
  (perm : order.Perm (scored graph (rankHits candidates)).zipIdx)

include perm

theorem isResultOf_of_perm (member : (hit, number) ∈ order) : IsResultOf candidates hit number :=
  isResultOf_scored (List.mk_mem_zipIdx_iff_getElem?.mp (perm.subset member))

theorem length_of_perm : order.length = candidates.length := by
  have same := congrArg List.length (records_scored graph candidates)
  rw [List.length_map, List.length_map] at same
  rw [perm.length_eq, List.length_zipIdx, same]

theorem numbers_of_perm : (order.map (·.2)).Nodup := by
  rw [(perm.map (·.2)).nodup_iff, List.zipIdx_map_snd]
  exact List.nodup_range'

theorem ids_of_perm : (order.map (·.1.record.id)).Perm (candidates.map (·.record.id)) := by
  have ids := congrArg (List.map IndexRecord.id) (records_scored graph candidates)
  rw [List.map_map, List.map_map] at ids
  have numbered : (scored graph (rankHits candidates)).zipIdx.map (·.1.record.id) =
      (scored graph (rankHits candidates)).map (·.record.id) := map_zipIdx fun _ => rfl
  have places := perm.map (·.1.record.id)
  rw [numbered] at places
  exact places.trans (.of_eq ids)

end Order

theorem le_candidateCount {limit : Nat} (bounded : limit < UInt64.size) :
    limit ≤ candidateCount limit := by
  unfold candidateCount candidatesPerResult
  omega

section Candidates

variable [Machine]

theorem length_candidates (retriever : Retriever) (vector : Embedding) (limit : Nat) :
    (retriever.candidates vector limit).length =
      min (candidateCount limit) retriever.index.records.length := by
  rw [Retriever.candidates, List.length_take, VectorIndex.length_ranking]

theorem mem_records_of_mem_candidates {retriever : Retriever} {vector : Embedding} {limit : Nat}
    {candidate : VectorIndex.Scored} (member : candidate ∈ retriever.candidates vector limit) :
    candidate.record ∈ retriever.index.records := by
  have ranked := List.mem_map_of_mem (f := VectorIndex.Scored.record) (List.mem_of_mem_take member)
  exact (retriever.index.records_ranking_perm vector).subset ranked

theorem nodup_ids_candidates (retriever : Retriever) (vector : Embedding) (limit : Nat) :
    ((retriever.candidates vector limit).map (·.record.id)).Nodup := by
  have ranked : ((retriever.index.ranking vector).map (·.record.id)).Nodup := by
    have perm := (retriever.index.records_ranking_perm vector).map (·.id)
    rw [List.map_map] at perm
    exact perm.nodup_iff.mpr retriever.index.nodup_ids
  exact ranked.sublist ((List.take_sublist ..).map _)

/-- A search for any text but a blank one yields as many results as it should. They are made of
different candidates, which are the first in the order of the vector search, and tell the records and
how near these are. If there is a graph with nodes, they are in the order of the scores that it gives
them, those with equal scores in the order of the vector search; and those that are left out would
come after them. -/
theorem search_selects (retriever : Retriever) (query : String) (vector : Embedding)
    (others : List Embedding) (limit : Nat) (asked : Text.isBlankText query = false)
    (suits : retriever.index.Suits vector.length) (bounded : limit < UInt64.size) :
    let count := min (3 * limit) (UInt64.size - 1)
    let total := retriever.index.records.length
    ∃ (candidates : List VectorIndex.Scored) (shown : List (SearchHit × Nat)),
      retriever.index.query vector count = .ok candidates ∧
      candidates.length = min count total ∧
      retriever.search query limit (.ok (vector :: others)) = .ok (shown.map (·.1)) ∧
      shown.length = min limit total ∧
      (shown.map (·.2)).Nodup ∧
      (∀ hit number, (hit, number) ∈ shown →
        IsResultOf candidates hit number ∧ hit.record ∈ retriever.index.records) ∧
      (shown.map (·.1.record.id)).Nodup ∧
      ∀ graph, retriever.graph = some graph → graph.isEmpty = false →
        let final := (Boost.raise graph (rankHits candidates)).zipIdx
        shown ⊆ final ∧ shown.Pairwise (Precedes SearchHit.score) ∧
        ∀ other ∈ final,
          other ∈ shown ∨ ∀ chosen ∈ shown, Precedes SearchHit.score chosen other := by
  intro count total
  have counted : count = candidateCount limit := by
    simp only [count, candidateCount, candidatesPerResult, Nat.mul_comm]
  have considered : (retriever.candidates vector limit).length = min count total := by
    rw [length_candidates, counted]
  obtain ⟨order, perm, sorted, ordered⟩ :=
    exists_rerank retriever.graph (rankHits (retriever.candidates vector limit))
  have kept : (order.take limit).Sublist order := List.take_sublist ..
  refine ⟨retriever.candidates vector limit, order.take limit, ?_, considered, ?_, ?_,
    (numbers_of_perm perm).sublist (kept.map _), ?_, ?_, ?_⟩
  · rw [VectorIndex.query_eq suits, counted]
    rfl
  · rw [search_eq asked suits, best, ← sorted, List.map_take]
  · have enough := le_candidateCount bounded
    rw [List.length_take, length_of_perm perm, considered]
    omega
  · intro hit number member
    obtain ⟨candidate, listed, same, near⟩ := isResultOf_of_perm perm (kept.subset member)
    have stored := mem_records_of_mem_candidates (List.mem_of_getElem? listed)
    exact ⟨⟨candidate, listed, same, near⟩, same ▸ stored⟩
  · have distinct := (ids_of_perm perm).nodup_iff.mpr (nodup_ids_candidates retriever vector limit)
    exact distinct.sublist (kept.map _)
  · intro graph attached nodes final
    have raised : final.Perm order := by
      simpa [scored, attached, nodes] using perm.symm
    have pairs := ordered graph attached nodes
    refine ⟨fun item member => raised.symm.subset (kept.subset member), pairs.sublist kept, ?_⟩
    intro other member
    have listed := raised.subset member
    rw [← List.take_append_drop limit order] at listed pairs
    rcases List.mem_append.mp listed with chosen | left
    · exact .inl chosen
    · exact .inr fun chosen before => (List.pairwise_append.mp pairs).2.2 chosen before other left

end Candidates

/-- The one result of two records, the second of which lies the other way. -/
theorem search_selects_one :
    let records : List IndexRecord :=
      [⟨"a.ts:1-1", "File: a.ts\none", [], [1]⟩, ⟨"b.ts:1-1", "File: b.ts\ntwo", [], [-1]⟩]
    let index : VectorIndex := { dimension := some 1, records, places := .ofList (by decide) }
    let retriever : Retriever := ⟨index, some ⟨[.ofFile "a.ts"], []⟩⟩
    Text.isBlankText "one" = false ∧ index.Suits 1 ∧
      ∃ hit, retriever.search "one" 1 (.ok [[1]]) = .ok [hit] ∧ hit.record ∈ records := by
  intro records index retriever
  have asked : Text.isBlankText "one" = false := by decide +kernel
  have suits : index.Suits 1 := fun expected set => (Option.some.inj set).symm
  obtain ⟨candidates, shown, _, _, found, length, _, results, _⟩ :=
    search_selects retriever "one" [1] [] 1 asked suits (by decide)
  obtain ⟨item, rfl⟩ := List.length_eq_one_iff.mp length
  exact ⟨asked, suits, item.1, found, (results item.1 item.2 List.mem_cons_self).2⟩

end Retriever

end CodeAtlas
