import CodeAtlas.Proofs.Index.Ledger
import CodeAtlas.Proofs.Index.Ranking

namespace CodeAtlas.VectorIndex

/-- The index holds what the ledger tells, and all vectors have its dimension. -/
structure Mirrors (index : VectorIndex) (ledger : Ledger) : Prop where
  dimension : index.dimension = ledger.dimension
  uniform : ∀ record ∈ index.records, index.dimension = some record.embedding.length
  held : ∀ id, index.get? id = (ledger.held id).map (·.record)
  past : ∀ id arrival, ledger.held id = some arrival → arrival.time < ledger.time
  ordered : (index.records.map (·.id)).Pairwise ledger.Precedes

variable {index : VectorIndex} {ledger : Ledger}

theorem mirrors_new (dimension : Option Nat) : Mirrors ⟨dimension, []⟩ (.new dimension) where
  dimension := rfl
  uniform := by simp
  held id := by
    ext record
    simp [get?_eq_some_iff, Ledger.new]
  past := by simp [Ledger.new]
  ordered := .nil

namespace Mirrors

/-- A dimension may be set as long as there is none. -/
theorem setDimension (mirrors : Mirrors index ledger) {dimension : Option Nat}
    (same : index.dimension = none ∨ index.dimension = dimension) :
    Mirrors { index with dimension } { ledger with dimension } := by
  refine ⟨rfl, ?_, mirrors.held, mirrors.past, mirrors.ordered⟩
  intro record member
  have uniform := mirrors.uniform record member
  rcases same with unset | rfl
  · rw [unset] at uniform
    cases uniform
  · exact uniform

theorem mem_ids_iff (mirrors : Mirrors index ledger) {id : String} :
    id ∈ index.records.map (·.id) ↔ ∃ arrival, ledger.held id = some arrival := by
  simp only [VectorIndex.mem_ids_iff, mirrors.held, Option.map_eq_some_iff]
  constructor
  · rintro ⟨_, arrival, held, _⟩
    exact ⟨arrival, held⟩
  · rintro ⟨arrival, held⟩
    exact ⟨arrival.record, arrival, held, rfl⟩

theorem put (mirrors : Mirrors index ledger) {record : IndexRecord}
    (fits : index.dimension = some record.embedding.length) :
    Mirrors (index.put record) (ledger.put record) where
  dimension := by rw [dimension_put]; exact mirrors.dimension
  uniform := by
    intro other member
    rw [dimension_put]
    rcases mem_put.mp member with rfl | ⟨old, _⟩
    · exact fits
    · exact mirrors.uniform other old
  held id := by
    rw [get?_put, mirrors.held, Ledger.held_put]
    split <;> rfl
  past := by
    intro id arrival held
    change arrival.time < ledger.time + 1
    rw [Ledger.held_put] at held
    split at held
    · obtain rfl := Option.some.inj held
      cases old : ledger.held id with
      | none => exact Nat.lt_succ_self _
      | some arrival => exact Nat.lt_succ_of_lt (mirrors.past id arrival old)
    · exact Nat.lt_succ_of_lt (mirrors.past id arrival held)
  ordered := by
    have kept := mirrors.ordered.imp fun precedes => Ledger.Precedes.put precedes record
    rw [ids_put]
    split
    · exact kept
    · next absent =>
      refine List.pairwise_append.mpr ⟨kept, List.pairwise_singleton .., ?_⟩
      intro old member new last
      obtain rfl := List.mem_singleton.mp last
      obtain ⟨arrival, held⟩ := mirrors.mem_ids_iff.mp member
      have unknown : ledger.held record.id = none := by
        rw [mirrors.mem_ids_iff, not_exists] at absent
        exact Option.eq_none_iff_forall_ne_some.mpr absent
      exact Ledger.precedes_put_of_held held (mirrors.past old arrival held) unknown

theorem putAll (mirrors : Mirrors index ledger) {records : List IndexRecord}
    (fits : ∀ record ∈ records, index.dimension = some record.embedding.length) :
    Mirrors (records.foldl VectorIndex.put index) (records.foldl Ledger.put ledger) := by
  induction records generalizing index ledger with
  | nil => exact mirrors
  | cons record records ih =>
    refine ih (mirrors.put (fits record (List.mem_cons_self ..))) fun other member => ?_
    rw [dimension_put]
    exact fits other (List.mem_cons_of_mem _ member)

/-- What is left of an index is in the order in which it was. -/
theorem drop (mirrors : Mirrors index ledger) {rest : VectorIndex} (gone : String → Bool)
    (dimension : rest.dimension = index.dimension)
    (sublist : rest.records.Sublist index.records)
    (left : ∀ record, record ∈ rest.records ↔ record ∈ index.records ∧ gone record.id = false) :
    Mirrors rest (ledger.drop gone) where
  dimension := dimension.trans mirrors.dimension
  uniform record member := dimension.trans (mirrors.uniform record (sublist.subset member))
  held id := by
    rw [Ledger.held_drop]
    ext record
    rw [get?_eq_some_iff, left]
    split
    · next out =>
      refine iff_of_false ?_ (by simp)
      rintro ⟨⟨_, stays⟩, rfl⟩
      rw [out] at stays
      cases stays
    · next stays =>
      rw [← mirrors.held, get?_eq_some_iff]
      constructor
      · rintro ⟨⟨member, _⟩, rfl⟩
        exact ⟨member, rfl⟩
      · rintro ⟨member, rfl⟩
        exact ⟨⟨member, by simpa using stays⟩, rfl⟩
  past := by
    intro id arrival held
    rw [Ledger.held_drop] at held
    split at held
    · cases held
    · exact mirrors.past id arrival held
  ordered := by
    have stay : ∀ id ∈ rest.records.map (·.id), gone id = false := by
      intro id member
      obtain ⟨record, inRest, rfl⟩ := List.mem_map.mp member
      exact ((left record).mp inRest).2
    refine (mirrors.ordered.sublist (sublist.map _)).imp_of_mem ?_
    intro first second inFirst inSecond precedes
    exact precedes.drop (stay first inFirst) (stay second inSecond)

end Mirrors

/-- Records come in if they all have the dimension that is set or else that of the first. -/
theorem settle_eq_ok_iff {expected settled : Option Nat} {records : List IndexRecord} :
    settle expected records = .ok settled ↔
      settled = expected.or (records.head?.map (·.embedding.length)) ∧
        ∀ record ∈ records, settled = some record.embedding.length := by
  induction records generalizing expected with
  | nil => simp [settle, eq_comm]
  | cons record records ih =>
    cases expected with
    | none =>
      rw [settle, ih, List.forall_mem_cons]
      exact and_congr_right fun settled => (and_iff_right settled).symm
    | some dimension =>
      rw [settle]
      split
      · next same =>
        rw [ih, List.forall_mem_cons, Option.some_or, Option.some_or]
        refine and_congr_right fun settled => ?_
        rw [settled, same]
        exact (and_iff_right rfl).symm
      · next different =>
        refine iff_of_false (by simp) ?_
        rintro ⟨rfl, fits⟩
        exact different (Option.some.inj (fits record (List.mem_cons_self ..)))

/-- Records of the right dimension always come in. -/
theorem Suits.insertMany {dimension : Nat} {records : List IndexRecord} (suits : index.Suits dimension)
    (fits : ∀ record ∈ records, record.embedding.length = dimension) :
    ∃ after, index.insertMany records = .ok after ∧ after.Suits dimension := by
  let settled := index.dimension.or (records.head?.map (·.embedding.length))
  have room : ∀ expected ∈ settled, expected = dimension := by
    intro expected set
    rcases Option.or_eq_some_iff.mp set with before | ⟨_, first⟩
    · exact suits expected before
    · obtain ⟨record, head, rfl⟩ := Option.map_eq_some_iff.mp first
      exact fits record (List.mem_of_head? head)
  have uniform : ∀ record ∈ records, settled = some record.embedding.length := by
    intro record member
    have set : settled.isSome := by
      obtain ⟨first, rest, rfl⟩ := List.exists_cons_of_ne_nil (List.ne_nil_of_mem member)
      simp [settled]
    obtain ⟨expected, set⟩ := Option.isSome_iff_exists.mp set
    rw [fits record member, set, room expected set]
  refine ⟨_, insertMany_eq_ok_iff.mpr ⟨settled, settle_eq_ok_iff.mpr ⟨rfl, uniform⟩, rfl⟩, ?_⟩
  intro expected set
  rw [dimension_putAll] at set
  exact room expected set

/-- All vectors have the dimension of the index. -/
def Uniform (index : VectorIndex) : Prop :=
  ∀ record ∈ index.records, index.dimension = some record.embedding.length

theorem Uniform.insertMany {records : List IndexRecord} {after : VectorIndex} (uniform : index.Uniform)
    (taken : index.insertMany records = .ok after) : after.Uniform := by
  obtain ⟨settled, run, rfl⟩ := insertMany_eq_ok_iff.mp taken
  obtain ⟨rfl, fits⟩ := settle_eq_ok_iff.mp run
  intro record member
  rw [dimension_putAll]
  rcases mem_of_mem_putAll member with before | new
  · exact Option.or_eq_some_iff.mpr (.inl (uniform record before))
  · exact fits record new

theorem Uniform.removeUnder (uniform : index.Uniform) (start : String) :
    (index.removeUnder start).2.Uniform :=
  fun record member => uniform record (mem_removeUnder.mp member).1

theorem load_uniform {text : String} (read : load text = .ok index) : index.Uniform := by
  unfold load at read
  split at read
  · cases read
  · next dimension records _ =>
    have start : Uniform ⟨dimension, []⟩ := fun _ nothing => nomatch nothing
    split at read
    · next taken =>
      obtain rfl := Except.ok.inj read
      exact start.insertMany taken
    · cases read

/-- A dimension that is set stays. -/
theorem dimension_of_insertMany {records : List IndexRecord} {after : VectorIndex} {dimension : Nat}
    (set : index.dimension = some dimension) (taken : index.insertMany records = .ok after) :
    after.dimension = some dimension := by
  obtain ⟨settled, run, rfl⟩ := insertMany_eq_ok_iff.mp taken
  rw [dimension_putAll, (settle_eq_ok_iff.mp run).1, set, Option.some_or]

theorem insertMany_eq (index : VectorIndex) (records : List IndexRecord) :
    (index.insertMany records).toOption.getD index =
      match settle index.dimension records with
      | .ok dimension => records.foldl put { index with dimension }
      | .error _ => index := by
  unfold insertMany
  cases settle index.dimension records <;> rfl

theorem Mirrors.insertMany (mirrors : Mirrors index ledger) (records : List IndexRecord) :
    Mirrors ((index.insertMany records).toOption.getD index) (ledger.take records) := by
  rw [insertMany_eq, Ledger.take, ← mirrors.dimension]
  split
  · next dimension run =>
    obtain ⟨settled, fits⟩ := settle_eq_ok_iff.mp run
    rw [← settled, if_pos fits]
    refine (mirrors.setDimension ?_).putAll fits
    cases set : index.dimension with
    | none => exact .inl rfl
    | some _ => exact .inr (by rw [settled, set, Option.some_or])
  · next error run =>
    rw [if_neg]
    · exact mirrors
    · intro fits
      rw [settle_eq_ok_iff.mpr ⟨rfl, fits⟩] at run
      cases run

theorem Mirrors.after (mirrors : Mirrors index ledger) (step : Step) :
    Mirrors (index.after step) (ledger.after step) := by
  cases step with
  | insert record => exact mirrors.insertMany [record]
  | insertMany records => exact mirrors.insertMany records
  | remove id =>
    refine mirrors.drop _ (dimension_remove index id) (index.remove_sublist id) fun record => ?_
    rw [beq_eq_false_iff_ne]
    exact mem_remove
  | removeUnder start =>
    exact mirrors.drop _ rfl List.filter_sublist fun record => mem_removeUnder

theorem Mirrors.afterAll (mirrors : Mirrors index ledger) (steps : List Step) :
    Mirrors (index.afterAll steps) (ledger.afterAll steps) := by
  induction steps generalizing index ledger with
  | nil => exact mirrors
  | cons step steps ih => exact ih (mirrors.after step)

theorem Origin.mirrors {origin : Origin} {start : VectorIndex}
    (opens : origin.index? = some start) : Mirrors start (.ofOrigin origin) := by
  cases origin with
  | empty =>
    obtain rfl := Option.some.inj opens
    exact mirrors_new none
  | withDimension dimension =>
    obtain rfl := Option.some.inj opens
    exact mirrors_new (some dimension)
  | loaded text =>
    simp only [Origin.index?, load, Ledger.ofOrigin] at opens ⊢
    cases read : Json.decode? snapshotDecoder text with
    | none => simp [read, Except.toOption] at opens
    | some snapshot =>
      obtain ⟨dimension, records⟩ := snapshot
      have came := (mirrors_new dimension).insertMany records
      simp only [read] at opens ⊢
      cases run : (⟨dimension, []⟩ : VectorIndex).insertMany records with
      | ok index =>
        rw [run] at opens came
        obtain rfl := Option.some.inj opens
        exact came
      | error error =>
        rw [run] at opens
        cases opens

theorem dimension_insertMany {dimension : Nat} (set : index.dimension = some dimension)
    (records : List IndexRecord) :
    ((index.insertMany records).toOption.getD index).dimension = some dimension := by
  rw [insertMany_eq]
  split
  · next settled run =>
    rw [set] at run
    rw [dimension_putAll]
    exact (settle_eq_ok_iff.mp run).1
  · exact set

theorem dimension_after {dimension : Nat} (set : index.dimension = some dimension) (step : Step) :
    (index.after step).dimension = some dimension := by
  cases step with
  | insert record => exact dimension_insertMany set [record]
  | insertMany records => exact dimension_insertMany set records
  | remove id => exact (dimension_remove index id).trans set
  | removeUnder start => exact set

theorem dimension_afterAll {dimension : Nat} (set : index.dimension = some dimension)
    (steps : List Step) : (index.afterAll steps).dimension = some dimension := by
  induction steps generalizing index with
  | nil => exact set
  | cons step steps ih => exact ih (dimension_after set step)

/-- However an index comes about and whatever is done with it, no two of its records share an id,
ids are found where they are, all vectors have the dimension, which stays once it is set, and the
records are those of the ledger in the order in which their ids came in. -/
theorem afterAll_invariant (origin : Origin) {start : VectorIndex}
    (opens : origin.index? = some start) (steps : List Step) :
    let index := start.afterAll steps
    let ledger := (Ledger.ofOrigin origin).afterAll steps
    (index.records.map (·.id)).Nodup ∧
      (∀ id record, index.get? id = some record ↔ record ∈ index.records ∧ record.id = id) ∧
      index.dimension = ledger.dimension ∧
      (∀ record ∈ index.records, index.dimension = some record.embedding.length) ∧
      (∀ dimension, index.dimension = some dimension →
        ∀ later, (index.afterAll later).dimension = some dimension) ∧
      (∀ id, index.get? id = (ledger.held id).map (·.record)) ∧
      (index.records.map (·.id)).Pairwise ledger.Precedes := by
  intro index ledger
  have mirrors : Mirrors index ledger := (Origin.mirrors opens).afterAll steps
  exact ⟨index.nodup_ids, fun _ _ => get?_eq_some_iff, mirrors.dimension, mirrors.uniform,
    fun _ set later => dimension_afterAll set later, mirrors.held, mirrors.ordered⟩

/-- A text with an id that stands there twice. After the record is dropped, its id comes in anew. -/
theorem afterAll_invariant_loaded :
    let text := "[0,[[\"a\",\"\",\x7b\x7d,[]],[\"b\",\"\",\x7b\x7d,[]],[\"a\",\"\",\x7b\x7d,[]]]]"
    let steps : List Step := [.remove "a", .insertMany [⟨"c", "", [], []⟩, ⟨"a", "new", [], []⟩]]
    ∃ start, (Origin.loaded text).index? = some start ∧
      ((start.afterAll steps).get? "a").map (·.text) = some "new" ∧
      ((start.afterAll steps).records.map (·.id)).Nodup := by
  intro text steps
  have opens : (Origin.loaded text).index?.isSome := by decide +kernel
  obtain ⟨start, opens⟩ := Option.isSome_iff_exists.mp opens
  obtain ⟨distinct, _, _, _, _, held, _⟩ := afterAll_invariant (.loaded text) opens steps
  refine ⟨start, opens, ?_, distinct⟩
  rw [held]
  decide +kernel

end CodeAtlas.VectorIndex
