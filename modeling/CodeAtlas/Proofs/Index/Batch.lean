import CodeAtlas.Proofs.Index.Lookup

namespace CodeAtlas.VectorIndex

variable {index after : VectorIndex} {record : IndexRecord} {records : List IndexRecord}

section InPlace

/-- What is done with an index in place. Where it fails, the index stays as it is just then. -/
abbrev InPlace := ExceptT DimensionError (StateM VectorIndex)

/-- Looks at the dimensions of records one after the other; yields the one that is set after them. -/
def agree (dimension : Option Nat) (records : List IndexRecord) : InPlace (Option Nat) := do
  let mut dimension := dimension
  for record in records do
    match dimension with
    | some expected =>
      if expected ≠ record.embedding.length then throw ⟨expected, record.embedding.length⟩
    | none => dimension := some record.embedding.length
  return dimension

/-- Takes in records in place: once all their dimensions are known to fit, the dimension is set and
the records are put in one after the other. -/
def takeIn (records : List IndexRecord) : InPlace Unit := do
  let dimension ← agree (← get).dimension records
  modify fun index => { index with dimension }
  for record in records do
    modify (put · record)

theorem run_bind {α β : Type} (first : InPlace α) (next : α → InPlace β) (index : VectorIndex) :
    (first >>= next).run.run index =
      match first.run.run index with
      | (.ok value, after) => (next value).run.run after
      | (.error error, after) => (.error error, after) := by
  rw [ExceptT.run_bind, StateT.run_bind]
  cases first.run.run index with
  | mk answer after => cases answer <;> rfl

theorem agree_run (dimension : Option Nat) (records : List IndexRecord) (index : VectorIndex) :
    (agree dimension records).run.run index = (settle dimension records, index) := by
  unfold agree
  rw [bind_pure]
  induction records generalizing dimension with
  | nil => rfl
  | cons record records ih =>
    rw [List.forIn_cons]
    cases dimension with
    | none => exact ih _
    | some expected =>
      rw [settle]
      by_cases same : expected = record.embedding.length
      · simp only [ne_eq, same, not_true_eq_false, if_true, if_false]
        exact ih _
      · simp only [ne_eq, same, not_false_eq_true, if_true, if_false]
        rfl

theorem putAll_run (index : VectorIndex) (records : List IndexRecord) :
    (for record in records do modify (put · record) : InPlace Unit).run.run index =
      (.ok (), records.foldl put index) := by
  rw [bind_pure]
  induction records generalizing index with
  | nil => rfl
  | cons record records ih =>
    rw [List.forIn_cons]
    exact ih _

/-- In place, records come in as they do otherwise; if they are rejected, nothing has changed. -/
theorem takeIn_run (index : VectorIndex) (records : List IndexRecord) :
    (takeIn records).run.run index =
      match index.insertMany records with
      | .ok after => (.ok (), after)
      | .error error => (.error error, index) := by
  have agreed := agree_run index.dimension records index
  have looked : ((get : InPlace VectorIndex).run.run index) = (.ok index, index) := rfl
  rw [takeIn, run_bind, looked]
  simp only
  rw [run_bind, agreed, insertMany]
  cases settle index.dimension records with
  | error error => rfl
  | ok dimension => exact putAll_run _ records

end InPlace

theorem records_put (index : VectorIndex) (record : IndexRecord) :
    (index.put record).records =
      match index.places.map[record.id]? with
      | some place => index.records.set place record
      | none => index.records ++ [record] := by
  unfold put
  split
  · next known => simp only [known]
  · next unknown => simp only [unknown]

/-- Where a record is put does not depend on the dimension. -/
theorem put_setDimension (index : VectorIndex) (dimension : Option Nat) (record : IndexRecord) :
    ({ index with dimension } : VectorIndex).put record = { index.put record with dimension } := by
  refine eq_of_records (by rw [dimension_put]) ?_
  show (put { index with dimension } record).records = (index.put record).records
  rw [records_put, records_put]

theorem settle_cons (dimension : Option Nat) (record : IndexRecord) (records : List IndexRecord) :
    settle dimension (record :: records) = settle dimension [record] >>= (settle · records) := by
  cases dimension with
  | none => rfl
  | some expected =>
    rw [settle, settle]
    split <;> rfl

/-- The first one of some records comes in before the others do. -/
theorem insertMany_cons (index : VectorIndex) (record : IndexRecord) (records : List IndexRecord) :
    index.insertMany (record :: records) = index.insert record >>= (insertMany · records) := by
  rw [insert, insertMany, insertMany, settle_cons]
  cases settle index.dimension [record] with
  | error error => rfl
  | ok dimension =>
    show settle dimension records >>= _ =
      settle (put { index with dimension } record).dimension records >>= _
    rw [dimension_put]
    refine bind_congr fun settled => ?_
    show pure (records.foldl put (put { index with dimension := settled } record)) =
      pure (records.foldl put { put { index with dimension } record with dimension := settled })
    rw [put_setDimension index settled, put_setDimension index dimension]

theorem insertMany_eq_foldlM (index : VectorIndex) (records : List IndexRecord) :
    index.insertMany records = records.foldlM insert index := by
  induction records generalizing index with
  | nil => rfl
  | cons record records ih =>
    rw [insertMany_cons, List.foldlM_cons]
    exact bind_congr fun after => ih after

/-- A record is rejected if the index has another dimension. -/
theorem insert_eq_error_iff {error : DimensionError} :
    index.insert record = .error error ↔
      index.dimension = some error.expected ∧ record.embedding.length = error.actual ∧
        error.expected ≠ error.actual := by
  rw [insert, insertMany]
  cases index.dimension with
  | none => exact iff_of_false nofun nofun
  | some expected =>
    rw [settle]
    split
    · next same =>
      refine iff_of_false nofun ?_
      rintro ⟨set, actual, differ⟩
      exact differ (by rw [← Option.some.inj set, same, actual])
    · next differ =>
      obtain ⟨_, _⟩ := error
      refine ⟨fun failed => ?_, ?_⟩
      · cases failed
        exact ⟨rfl, rfl, differ⟩
      · rintro ⟨set, rfl, _⟩
        cases set
        rfl

section Steps

variable {σ α ε : Type} {step : σ → α → Except ε σ}

/-- Steps that are taken one after the other fail with the first one of them that fails. -/
theorem foldlM_eq_error_iff {items : List α} {start : σ} {error : ε} :
    items.foldlM step start = .error error ↔
      ∃ earlier item later before, items = earlier ++ item :: later ∧
        earlier.foldlM step start = .ok before ∧ step before item = .error error := by
  induction items generalizing start with
  | nil => exact iff_of_false nofun (by simp)
  | cons item items ih =>
    rw [List.foldlM_cons]
    -- Either the first step fails, with nothing before it, or the failing one is among the others.
    cases first : step start item with
    | error other =>
      refine ⟨fun same => ⟨[], item, items, start, rfl, rfl, first.trans same⟩, ?_⟩
      rintro ⟨_ | ⟨_, earlier⟩, _, later, before, split, run, failed⟩
      · obtain ⟨rfl, rfl⟩ := List.cons.inj split
        obtain rfl := Except.ok.inj run
        exact first.symm.trans failed
      · obtain ⟨rfl, rfl⟩ := List.cons.inj split
        rw [List.foldlM_cons, first] at run
        cases run
    | ok next =>
      refine ih.trans ⟨?_, ?_⟩
      · rintro ⟨earlier, last, later, before, rfl, run, failed⟩
        refine ⟨item :: earlier, last, later, before, rfl, ?_, failed⟩
        rw [List.foldlM_cons, first]
        exact run
      · rintro ⟨_ | ⟨_, earlier⟩, last, later, before, split, run, failed⟩
        · obtain ⟨rfl, rfl⟩ := List.cons.inj split
          obtain rfl := Except.ok.inj run
          cases first.symm.trans failed
        · obtain ⟨rfl, rfl⟩ := List.cons.inj split
          rw [List.foldlM_cons, first] at run
          exact ⟨earlier, last, later, before, rfl, run, failed⟩

end Steps

/-- Records that come in together are taken in if and only if they are when they come in one after
the other, and the index is the same after that. Otherwise they are rejected with the first one of
them that would be, since the index has another dimension when its turn comes. In place the index
has not changed then. -/
theorem insertMany_atomic (index : VectorIndex) (records : List IndexRecord) :
    (∀ after, index.insertMany records = .ok after ↔ records.foldlM insert index = .ok after) ∧
      (∀ error, index.insertMany records = .error error ↔
        ∃ earlier record later before, records = earlier ++ record :: later ∧
          earlier.foldlM insert index = .ok before ∧ before.insert record = .error error) ∧
      (∀ before record error, insert before record = .error error ↔
        before.dimension = some error.expected ∧ record.embedding.length = error.actual ∧
          error.expected ≠ error.actual) ∧
      (takeIn records).run.run index =
        match index.insertMany records with
        | .ok after => (.ok (), after)
        | .error error => (.error error, index) := by
  refine ⟨fun after => ?_, fun error => ?_, fun _ _ _ => insert_eq_error_iff,
    takeIn_run index records⟩
  · rw [insertMany_eq_foldlM]
  · rw [insertMany_eq_foldlM, foldlM_eq_error_iff]

end CodeAtlas.VectorIndex
