import CodeAtlas.Index.Basic
import Mathlib.Data.List.Basic

namespace CodeAtlas

namespace Embedding

variable {α : Type} {score : α → Float32}

/-- What does not depend on the numbers of items. -/
theorem map_zipIdx {β : Type} {items : List α} {onPair : α × Nat → β} {onItem : α → β}
    (same : ∀ pair, onPair pair = onItem pair.1) : items.zipIdx.map onPair = items.map onItem := by
  have firsts : items.zipIdx.map onPair = (items.zipIdx.map Prod.fst).map onItem := by
    rw [List.map_map]
    exact List.map_congr_left fun pair _ => same pair
  rw [firsts, List.zipIdx_map_fst]

theorem place_of_mem_zipIdx {items : List α} {item : (α × Nat) × Nat}
    (member : item ∈ items.zipIdx.zipIdx) : item.1.2 = item.2 := by
  have listed := List.mk_mem_zipIdx_iff_getElem?.mp member
  rw [List.getElem?_zipIdx, Option.map_eq_some_iff] at listed
  obtain ⟨_, _, same⟩ := listed
  rw [← same, Nat.zero_add]

variable [Machine]

/-- Of two items with their places the one with the higher score comes first; if the scores are equal,
the one with the lower place. -/
def Precedes (score : α → Float32) (first second : α × Nat) : Prop :=
  rank (bitsAt second.2 (score second.1)) < rank (bitsAt first.2 (score first.1)) ∨
    rank (bitsAt second.2 (score second.1)) = rank (bitsAt first.2 (score first.1)) ∧
      first.2 < second.2

theorem sortByScore_perm (score : α → Float32) (items : List α) :
    (sortByScore score items).Perm items :=
  ((List.mergeSort_perm ..).map _).trans (.of_eq (List.zipIdx_map_fst ..))

/-- Items that stand in order stay as they are. -/
theorem sortByScore_of_pairwise {items : List α}
    (sorted : items.zipIdx.Pairwise fun first second =>
      rank (bitsAt second.2 (score second.1)) ≤ rank (bitsAt first.2 (score first.1))) :
    sortByScore score items = items := by
  have kept := List.mergeSort_of_pairwise (sorted.imp decide_eq_true)
  exact (congrArg (List.map Prod.fst) kept).trans (List.zipIdx_map_fst ..)

/-- Sorting keeps the order of items with equal scores. -/
theorem exists_order (score : α → Float32) (items : List α) :
    ∃ order : List (α × Nat), order.Perm items.zipIdx ∧
      order.map (·.1) = sortByScore score items ∧ order.Pairwise (Precedes score) := by
  let le (first second : α × Nat) : Bool :=
    rank (bitsAt second.2 (score second.1)) ≤ rank (bitsAt first.2 (score first.1))
  -- The places are counted once more, so that the sorting itself keeps them apart.
  let order := items.zipIdx.zipIdx.mergeSort (List.zipIdxLE le)
  have perm : order.Perm items.zipIdx.zipIdx := List.mergeSort_perm ..
  have trans : ∀ first second third, le first second → le second third → le first third := by
    intro first second third head tail
    simp only [le, decide_eq_true_eq] at head tail ⊢
    exact Int.le_trans tail head
  have total : ∀ first second, le first second || le second first := by
    intro first second
    simpa [le] using Int.le_total (rank _) (rank _)
  have sorted : order.Pairwise fun first second => List.zipIdxLE le first second = true :=
    List.pairwise_mergeSort (List.zipIdxLE_trans trans) (List.zipIdxLE_total total) _
  have numbers : (order.map (·.2)).Nodup := by
    rw [(perm.map (·.2)).nodup_iff, List.zipIdx_map_snd]
    exact List.nodup_range'
  have once : order.map (·.1) = items.zipIdx.mergeSort le := List.mergeSort_zipIdx
  refine ⟨order.map (·.1), (perm.map (·.1)).trans (.of_eq (List.zipIdx_map_fst ..)), ?_, ?_⟩
  · rw [once]
    rfl
  · refine List.pairwise_map.mpr
      ((sorted.and (List.pairwise_map.mp numbers)).imp_of_mem fun here there both => ?_)
    have place := place_of_mem_zipIdx (perm.subset here)
    have place' := place_of_mem_zipIdx (perm.subset there)
    obtain ⟨before, apart⟩ := both
    simp only [List.zipIdxLE, le, decide_eq_true_eq] at before
    unfold Precedes
    split at before
    · split at before
      · have upTo : _ ≤ _ := of_decide_eq_true before
        omega
      · omega
    · cases before

end Embedding

namespace VectorIndex

/-- The index has no dimension yet, or this one. -/
def Suits (index : VectorIndex) (dimension : Nat) : Prop :=
  ∀ expected ∈ index.dimension, expected = dimension

variable [Machine]

theorem length_ranking (index : VectorIndex) (vector : Embedding) :
    (index.ranking vector).length = index.records.length := by
  simp [ranking, Embedding.sortByScore]

theorem query_eq {index : VectorIndex} {vector : Embedding}
    (suits : index.Suits vector.length) (count : Nat) :
    index.query vector count = .ok ((index.ranking vector).take count) := by
  have ranked := index.length_ranking vector
  unfold query
  split
  · next nothing =>
    have short : ((index.ranking vector).take count).length = 0 := by
      rw [List.length_take, ranked]
      rcases nothing with empty | rfl
      · rw [List.isEmpty_iff.mp empty]
        exact Nat.min_zero _
      · exact Nat.zero_min _
    rw [List.eq_nil_of_length_eq_zero short]
  · split
    · next expected set => rw [if_pos (suits expected set).symm]
    · rfl

theorem records_ranking_perm (index : VectorIndex) (vector : Embedding) :
    ((index.ranking vector).map (·.record)).Perm index.records := by
  have sorted := Embedding.sortByScore_perm Scored.score
    (index.records.map fun record => (⟨record, Embedding.cosine vector record.embedding⟩ :
      Scored))
  have records := sorted.map Scored.record
  rw [List.map_map] at records
  simpa [ranking, Function.comp_def] using records

end VectorIndex

end CodeAtlas
