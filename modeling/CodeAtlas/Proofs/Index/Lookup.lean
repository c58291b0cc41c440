import CodeAtlas.Index.Basic

namespace CodeAtlas

/-- The places of ids are settled by the ids. -/
theorem Places.unique {ids : List String} (first second : Places ids) : first = second := by
  obtain ⟨map, locates⟩ := first
  obtain ⟨other, others⟩ := second
  have same : map = other := by
    refine Std.ExtHashMap.ext_getElem? fun id => Option.ext fun place => ?_
    exact (locates id place).trans (others id place).symm
  subst same
  rfl

namespace VectorIndex

variable {index : VectorIndex} {record other : IndexRecord} {id : String}

theorem places_iff {place : Nat} :
    index.places.map[id]? = some place ↔ (index.records.map (·.id))[place]? = some id :=
  index.places.locates id place

theorem places_of_getElem? {place : Nat} (atPlace : index.records[place]? = some record) :
    index.places.map[record.id]? = some place := by
  rw [places_iff, List.getElem?_map, atPlace]
  rfl

theorem places_unique {place own : Nat} (known : index.places.map[id]? = some place)
    (atOwn : index.records[own]? = some record) (same : record.id = id) : own = place := by
  rw [← same, places_of_getElem? atOwn] at known
  exact Option.some.inj known

theorem id_of_places {place : Nat} (known : index.places.map[id]? = some place)
    (atPlace : index.records[place]? = some record) : record.id = id := by
  rw [places_iff, List.getElem?_map, atPlace] at known
  exact Option.some.inj known

/-- An index finds the record of an id, wherever it stands, and nothing else. -/
theorem get?_eq_some_iff :
    index.get? id = some record ↔ record ∈ index.records ∧ record.id = id := by
  unfold get?
  rw [Option.bind_eq_some_iff, List.mem_iff_getElem?]
  constructor
  · rintro ⟨place, known, atPlace⟩
    exact ⟨⟨place, atPlace⟩, id_of_places known atPlace⟩
  · rintro ⟨⟨place, atPlace⟩, rfl⟩
    exact ⟨place, places_of_getElem? atPlace, atPlace⟩

theorem mem_ids_iff : id ∈ index.records.map (·.id) ↔ ∃ record, index.get? id = some record := by
  rw [List.mem_map]
  exact exists_congr fun _ => get?_eq_some_iff.symm

@[simp] theorem dimension_put (index : VectorIndex) (record : IndexRecord) :
    (index.put record).dimension = index.dimension := by
  unfold put
  split <;> rfl

/-- A record takes the place of the one with its id; a new id comes in at the end. -/
theorem ids_put (index : VectorIndex) (record : IndexRecord) :
    (index.put record).records.map (·.id) =
      if record.id ∈ index.records.map (·.id) then index.records.map (·.id)
      else index.records.map (·.id) ++ [record.id] := by
  unfold put
  split
  · next place known =>
    rw [if_pos (List.mem_of_getElem? (places_iff.mp known))]
    exact (index.map_id_set known).symm
  · next unknown =>
    rw [if_neg (index.places.locates.eq_none_iff.mp unknown), List.map_append]
    rfl

theorem mem_put :
    other ∈ (index.put record).records ↔
      other = record ∨ other ∈ index.records ∧ other.id ≠ record.id := by
  unfold put
  split
  · next place known =>
    have inside : place < index.records.length := by
      have atPlace := places_iff.mp known
      simpa using (List.getElem?_eq_some_iff.mp atPlace).1
    simp only [List.mem_iff_getElem?, List.getElem?_set, if_pos inside]
    constructor
    · rintro ⟨own, atOwn⟩
      split at atOwn
      · exact .inl (Option.some.inj atOwn).symm
      · next different =>
        exact .inr ⟨⟨own, atOwn⟩, fun same => different (places_unique known atOwn same).symm⟩
    · rintro (rfl | ⟨⟨own, atOwn⟩, different⟩)
      · exact ⟨place, if_pos rfl⟩
      · refine ⟨own, ?_⟩
        rw [if_neg]
        · exact atOwn
        · rintro rfl
          exact different (id_of_places known atOwn)
  · next unknown =>
    have absent := index.places.locates.eq_none_iff.mp unknown
    rw [List.mem_append, List.mem_singleton, or_comm]
    refine or_congr_right (and_iff_left_of_imp ?_).symm
    intro member same
    exact absent (same ▸ List.mem_map_of_mem member)

theorem get?_put (index : VectorIndex) (record : IndexRecord) (id : String) :
    (index.put record).get? id = if id = record.id then some record else index.get? id := by
  split
  · next same =>
    subst same
    exact get?_eq_some_iff.mpr ⟨mem_put.mpr (.inl rfl), rfl⟩
  · next different =>
    ext found
    rw [get?_eq_some_iff, get?_eq_some_iff, mem_put]
    constructor
    · rintro ⟨rfl | ⟨member, _⟩, keyed⟩
      · exact absurd keyed.symm different
      · exact ⟨member, keyed⟩
    · rintro ⟨member, rfl⟩
      exact ⟨.inr ⟨member, different⟩, rfl⟩

@[simp] theorem dimension_remove (index : VectorIndex) (id : String) :
    (index.remove id).2.dimension = index.dimension := by
  unfold remove
  split <;> rfl

theorem remove_sublist (index : VectorIndex) (id : String) :
    (index.remove id).2.records.Sublist index.records := by
  unfold remove
  split
  · exact List.eraseIdx_sublist ..
  · exact List.Sublist.refl _

theorem mem_remove :
    record ∈ (index.remove id).2.records ↔ record ∈ index.records ∧ record.id ≠ id := by
  unfold remove
  split
  · next place known =>
    rw [List.mem_eraseIdx_iff_getElem?, List.mem_iff_getElem?]
    constructor
    · rintro ⟨own, different, atOwn⟩
      refine ⟨⟨own, atOwn⟩, ?_⟩
      exact fun same => different (places_unique known atOwn same)
    · rintro ⟨⟨own, atOwn⟩, different⟩
      refine ⟨own, ?_, atOwn⟩
      rintro rfl
      exact different (id_of_places known atOwn)
  · next unknown =>
    refine (and_iff_left_of_imp ?_).symm
    rintro member rfl
    exact index.places.locates.eq_none_iff.mp unknown (List.mem_map_of_mem member)

theorem mem_removeUnder {start : String} :
    record ∈ (index.removeUnder start).2.records ↔
      record ∈ index.records ∧ record.id.startsWith start = false := by
  simp [removeUnder]

/-- Records with new ids come in at the end, in their order. -/
theorem records_putAll {records : List IndexRecord}
    (fresh : ∀ record ∈ records, record.id ∉ index.records.map (·.id))
    (distinct : (records.map (·.id)).Nodup) :
    (records.foldl put index).records = index.records ++ records := by
  induction records generalizing index with
  | nil => exact (List.append_nil _).symm
  | cons record records ih =>
    obtain ⟨apart, distinct⟩ := List.nodup_cons.mp distinct
    have added : (index.put record).records = index.records ++ [record] := by
      have unknown := index.places.locates.eq_none_iff.mpr (fresh record List.mem_cons_self)
      unfold put
      split
      · next known => cases unknown.symm.trans known
      · rfl
    rw [List.foldl_cons, ih _ distinct, added, List.append_assoc]
    · rfl
    · intro other member
      rw [added, List.map_append, List.mem_append, not_or]
      refine ⟨fresh other (List.mem_cons_of_mem _ member), fun same => apart ?_⟩
      obtain same := List.mem_singleton.mp same
      exact same ▸ List.mem_map_of_mem member

theorem dimension_putAll (index : VectorIndex) (records : List IndexRecord) :
    (records.foldl put index).dimension = index.dimension := by
  induction records generalizing index with
  | nil => rfl
  | cons record records ih => exact (ih _).trans (dimension_put index record)

theorem mem_of_mem_putAll {records : List IndexRecord}
    (member : record ∈ (records.foldl put index).records) :
    record ∈ index.records ∨ record ∈ records := by
  induction records generalizing index with
  | nil => exact .inl member
  | cons first records ih =>
    rcases ih member with before | later
    · rcases mem_put.mp before with rfl | ⟨before, _⟩
      · exact .inr List.mem_cons_self
      · exact .inl before
    · exact .inr (List.mem_cons_of_mem _ later)

theorem insertMany_eq_ok_iff {records : List IndexRecord} {after : VectorIndex} :
    index.insertMany records = .ok after ↔
      ∃ dimension, settle index.dimension records = .ok dimension ∧
        records.foldl put { index with dimension } = after := by
  unfold insertMany
  cases settled : settle index.dimension records with
  | error error => exact iff_of_false nofun nofun
  | ok dimension =>
    refine ⟨fun taken => ⟨dimension, rfl, Except.ok.inj taken⟩, ?_⟩
    rintro ⟨_, same, rfl⟩
    obtain rfl := Except.ok.inj same
    rfl

theorem records_insertMany {records : List IndexRecord} {after : VectorIndex}
    (taken : index.insertMany records = .ok after)
    (fresh : ∀ record ∈ records, record.id ∉ index.records.map (·.id))
    (distinct : (records.map (·.id)).Nodup) : after.records = index.records ++ records := by
  obtain ⟨dimension, _, rfl⟩ := insertMany_eq_ok_iff.mp taken
  exact records_putAll fresh distinct

theorem mem_of_insertMany {records : List IndexRecord} {after : VectorIndex}
    (taken : index.insertMany records = .ok after) (member : record ∈ after.records) :
    record ∈ index.records ∨ record ∈ records := by
  obtain ⟨dimension, _, rfl⟩ := insertMany_eq_ok_iff.mp taken
  have known := mem_of_mem_putAll member
  exact known

/-- An index is known by its dimension and its records. -/
theorem eq_of_records {first second : VectorIndex} (dimension : first.dimension = second.dimension)
    (records : first.records = second.records) : first = second := by
  obtain ⟨dimension₁, records₁⟩ := first
  obtain ⟨dimension₂, records₂⟩ := second
  subst dimension records
  congr
  exact Places.unique ..

end VectorIndex

end CodeAtlas
