import CodeAtlas.Proofs.Embedding.Order
import CodeAtlas.Proofs.Index.RoundTrip

namespace CodeAtlas

namespace Embedding

variable [Machine] {α : Type} {score : α → Float32} {first second : α × Nat}

/-- One item precedes another if its score is above that of the other, or equal and its place lower. -/
theorem precedes_iff :
    Precedes score first second ↔
      Below (bitsAt second.2 (score second.1)) (bitsAt first.2 (score first.1)) ∨
        bitsAt first.2 (score first.1) = bitsAt second.2 (score second.1) ∧ first.2 < second.2 := by
  rw [Precedes, rank_lt_rank_iff]
  exact or_congr_right (and_congr_left' ⟨fun same => (rank_injective same).symm, fun same => by rw [same]⟩)

end Embedding

namespace Machine

variable (place : Nat)

/-- Bits that are positive at one place and negative at all others. -/
def bitsPositiveAt (i : Nat) : UInt32 := if i = place then 0x7FC00000 else 0xFFC00000

theorem isNaN_bitsPositiveAt (i : Nat) : (Float32.ofBits (bitsPositiveAt place i)).isNaN = true := by
  unfold bitsPositiveAt
  split <;> decide +kernel

/-- The machine with these bits for results that are no numbers. -/
abbrev positiveAt : Machine := ⟨bitsPositiveAt place, isNaN_bitsPositiveAt place⟩

end Machine

namespace VectorIndex

open CodeAtlas.Embedding (Below bitsAt)

variable {index : VectorIndex} {vector : Embedding} {ranked : List (Scored × Nat)}
  {first second : Scored × Nat}

/-- All records with their nearness to a vector, in the order of the index. -/
def scored (index : VectorIndex) (vector : Embedding) : List Scored :=
  index.records.map fun record => ⟨record, Embedding.cosine vector record.embedding⟩

section Ranking

variable [Machine]

/-- The bits that say how near a record at its place is. -/
def scoreBits (item : Scored × Nat) : UInt32 := bitsAt item.2 item.1.score

/-- Of two records with their places the first one is nearer, or as near and has the lower place. -/
def Above (first second : Scored × Nat) : Prop :=
  Below (scoreBits second) (scoreBits first) ∨
    scoreBits first = scoreBits second ∧ first.2 < second.2

/-- The list holds each record once, with its nearness and its place, in the order of a ranking. -/
structure IsRanking (index : VectorIndex) (vector : Embedding) (ranked : List (Scored × Nat)) :
    Prop where
  all : ranked.Perm (index.scored vector).zipIdx
  ordered : ranked.Pairwise Above

theorem above_iff_precedes : Above first second ↔ Embedding.Precedes Scored.score first second :=
  Embedding.precedes_iff.symm

theorem Above.not_below (above : Above first second) :
    ¬ Below (scoreBits first) (scoreBits second) := by
  rw [above_iff_precedes, Embedding.Precedes] at above
  rw [← Embedding.rank_lt_rank_iff]
  unfold scoreBits
  omega

theorem Above.asymm (above : Above first second) : ¬ Above second first := by
  rw [above_iff_precedes, Embedding.Precedes] at above ⊢
  omega

/-- There is one ranking of the records for a vector. -/
theorem IsRanking.unique {other : List (Scored × Nat)} (ranks : index.IsRanking vector ranked)
    (others : index.IsRanking vector other) : other = ranked :=
  (others.all.trans ranks.all.symm).eq_of_pairwise
    (fun _ _ _ _ above below => absurd below above.asymm) others.ordered ranks.ordered

theorem exists_isRanking (index : VectorIndex) (vector : Embedding) :
    ∃ ranked, index.IsRanking vector ranked ∧ ranked.map (·.1) = index.ranking vector := by
  obtain ⟨ranked, all, sorted, ordered⟩ :=
    Embedding.exists_order Scored.score (index.scored vector)
  exact ⟨ranked, ⟨all, ordered.imp above_iff_precedes.mpr⟩, sorted⟩

theorem IsRanking.length (ranks : index.IsRanking vector ranked) :
    ranked.length = index.records.length := by
  rw [ranks.all.length_eq, List.length_zipIdx, scored, List.length_map]

/-- A record that is left out is no nearer than one that is among the first. -/
theorem IsRanking.not_below_of_left_out (ranks : index.IsRanking vector ranked) {count place : Nat}
    {record : IndexRecord} (stored : index.records[place]? = some record)
    (out : record ∉ (ranked.take count).map (·.1.record)) :
    ∀ shown ∈ ranked.take count,
      ¬ Below (scoreBits shown) (bitsAt place (Embedding.cosine vector record.embedding)) := by
  intro shown listed
  have scored : (⟨record, Embedding.cosine vector record.embedding⟩, place) ∈
      (index.scored vector).zipIdx := by
    rw [List.mk_mem_zipIdx_iff_getElem?, VectorIndex.scored, List.getElem?_map, stored]
    rfl
  have somewhere := ranks.all.symm.subset scored
  rw [← List.take_append_drop count ranked] at somewhere
  have left := (List.mem_append.mp somewhere).resolve_left fun among =>
    out (List.mem_map.mpr ⟨_, among, rfl⟩)
  have ordered := ranks.ordered
  rw [← List.take_append_drop count ranked] at ordered
  exact ((List.pairwise_append.mp ordered).2.2 shown listed _ left).not_below

/-- A vector that does not fit is of no account if nothing is asked for or nothing is there. -/
theorem query_of_misfit {expected : Nat} (set : index.dimension = some expected)
    (misfit : vector.length ≠ expected) (count : Nat) :
    index.query vector count =
      if 0 < count ∧ index.records ≠ [] then .error ⟨expected, vector.length⟩ else .ok [] := by
  have nothing : index.records.isEmpty ∨ count = 0 ↔ ¬ (0 < count ∧ index.records ≠ []) := by
    rw [List.isEmpty_iff, not_and_or, not_not, Nat.pos_iff_ne_zero, not_not, or_comm]
  simp only [query, set, nothing, misfit, if_false, ite_not]

/-- There is one ranking of the records for a vector, whatever bits the machine has for results that are
no numbers. If the vector fits, a query yields its first records, as many as are asked for and there
are: none that is left out is nearer than one of them, and with fewer asked for it is the first of them
that come. If the vector does not fit, it is rejected unless nothing is asked for or the index is
empty. -/
theorem query_ranks (index : VectorIndex) (vector : Embedding) :
    ∃ ranked : List (Scored × Nat),
      (∀ other, index.IsRanking vector other ↔ other = ranked) ∧
      (index.Suits vector.length → ∀ count, ∃ found,
        index.query vector count = .ok found ∧
        found = (ranked.take count).map (·.1) ∧
        found.length = min count index.records.length ∧
        (∀ place record, index.records[place]? = some record → record ∉ found.map (·.record) →
          ∀ shown ∈ ranked.take count,
            ¬ Below (scoreBits shown) (bitsAt place (Embedding.cosine vector record.embedding))) ∧
        ∀ fewer ≤ count, ∃ first, index.query vector fewer = .ok first ∧ first <+: found) ∧
      ∀ expected, index.dimension = some expected → vector.length ≠ expected → ∀ count,
        index.query vector count =
          if 0 < count ∧ index.records ≠ [] then .error ⟨expected, vector.length⟩ else .ok [] := by
  obtain ⟨ranked, ranks, sorted⟩ := index.exists_isRanking vector
  refine ⟨ranked, fun other => ⟨ranks.unique, fun same => same ▸ ranks⟩, ?_,
    fun expected set misfit => query_of_misfit set misfit⟩
  intro suits count
  have answer : ∀ count, index.query vector count = .ok ((ranked.take count).map (·.1)) := by
    intro count
    rw [query_eq suits, ← sorted, List.map_take]
  refine ⟨_, answer count, rfl, ?_, ?_, ?_⟩
  · rw [List.length_map, List.length_take, ranks.length]
  · intro place record stored out
    refine ranks.not_below_of_left_out stored ?_
    rwa [List.map_map] at out
  · intro fewer less
    exact ⟨_, answer fewer, (List.take_prefix_take_left less).map _⟩

end Ranking

/-- Where a result is no number, its sign decides on which side of all numbers it ranks; the negative
zero ranks below the other. -/
theorem query_ranks_signs :
    let _ : Machine := .positiveAt 1
    let special := Float32.ofBits 0x7FC00000
    let records : List IndexRecord := [⟨"a", "", [], [special]⟩, ⟨"b", "", [], [special]⟩,
      ⟨"c", "", [], [-0.0]⟩, ⟨"d", "", [], [0.0]⟩, ⟨"e", "", [], [0.0]⟩]
    ∃ index found, (withDimension 1).insertMany records = .ok index ∧
      index.query [1.0] 4 = .ok found ∧ found.map (·.record.id) = ["b", "d", "e", "c"] := by
  intro _ special records
  obtain ⟨index, taken, set, same⟩ :=
    exists_insertMany (show ∀ record ∈ records, some 1 = some record.embedding.length by decide)
      (show (records.map (·.id)).Nodup by decide)
  obtain ⟨ranked, unique, answers, _⟩ := query_ranks index [1.0]
  have none : Embedding.cosine [1.0] [special] = special := by decide +kernel
  have negative : Embedding.cosine [1.0] [-0.0] = -0.0 := by decide +kernel
  have positive : Embedding.cosine [1.0] [0.0] = 0.0 := by decide +kernel
  have order : index.IsRanking [1.0] [(⟨records[1], special⟩, 1), (⟨records[3], 0.0⟩, 3),
      (⟨records[4], 0.0⟩, 4), (⟨records[2], -0.0⟩, 2), (⟨records[0], special⟩, 0)] := by
    refine ⟨?_, ?_⟩
    · rw [scored, same]
      simp only [records, List.map_cons, List.map_nil, none, negative, positive]
      let scores := [special, special, -0.0, 0.0, 0.0]
      exact (show List.Perm [(1 : Fin 5), 3, 4, 2, 0] [0, 1, 2, 3, 4] by decide).map fun place =>
        ((⟨records[place], scores[place]⟩ : Scored), place.val)
    · unfold Above scoreBits
      decide +kernel
  obtain rfl := (unique _).mp order
  have fits : index.Suits 1 := fun _ known => Option.some.inj (known.symm.trans set)
  obtain ⟨found, answer, first, _⟩ := answers fits 4
  exact ⟨index, found, taken, answer, first ▸ rfl⟩

end VectorIndex

end CodeAtlas
