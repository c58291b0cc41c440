import CodeAtlas.Index.Snapshot
import CodeAtlas.Proofs.Index.Lookup

namespace CodeAtlas

namespace VectorIndex

inductive Step where
  | insert (record : IndexRecord)
  | insertMany (records : List IndexRecord)
  | remove (id : String)
  | removeUnder (start : String)

/-- The index after a step, which may fail. -/
def after (index : VectorIndex) : Step → VectorIndex
  | .insert record => (index.insert record).toOption.getD index
  | .insertMany records => (index.insertMany records).toOption.getD index
  | .remove id => (index.remove id).2
  | .removeUnder start => (index.removeUnder start).2

def afterAll (index : VectorIndex) (steps : List Step) : VectorIndex :=
  steps.foldl after index

/-- How an index comes about. -/
inductive Origin where
  | empty
  | withDimension (dimension : Nat)
  | loaded (text : String)

/-- The index at first. Not every text is that of an index. -/
def Origin.index? : Origin → Option VectorIndex
  | .empty => some VectorIndex.empty
  | .withDimension dimension => some (VectorIndex.withDimension dimension)
  | .loaded text => (load text).toOption

end VectorIndex

/-- A record and the time at which its id came in. -/
structure Arrival where
  time : Nat
  record : IndexRecord

/-- Time counts the records that have come in. -/
structure Ledger where
  dimension : Option Nat
  time : Nat
  held : String → Option Arrival

namespace Ledger

def new (dimension : Option Nat) : Ledger := ⟨dimension, 0, fun _ => none⟩

/-- Notes a record. An id that is there has come in before. -/
def put (ledger : Ledger) (record : IndexRecord) : Ledger where
  dimension := ledger.dimension
  time := ledger.time + 1
  held id :=
    if id = record.id then some ⟨((ledger.held id).map (·.time)).getD ledger.time, record⟩
    else ledger.held id

/-- Notes records if they all have the dimension that is set or else that of the first. -/
def take (ledger : Ledger) (records : List IndexRecord) : Ledger :=
  let dimension := ledger.dimension.or (records.head?.map (·.embedding.length))
  if ∀ record ∈ records, dimension = some record.embedding.length then
    records.foldl put { ledger with dimension }
  else ledger

def drop (ledger : Ledger) (gone : String → Bool) : Ledger :=
  { ledger with held := fun id => if gone id then none else ledger.held id }

def after (ledger : Ledger) : VectorIndex.Step → Ledger
  | .insert record => ledger.take [record]
  | .insertMany records => ledger.take records
  | .remove id => ledger.drop (· == id)
  | .removeUnder start => ledger.drop (·.startsWith start)

def afterAll (ledger : Ledger) (steps : List VectorIndex.Step) : Ledger :=
  steps.foldl after ledger

/-- The ledger at first: for a text, its records came in one after the other. -/
def ofOrigin : VectorIndex.Origin → Ledger
  | .empty => new none
  | .withDimension dimension => new (some dimension)
  | .loaded text =>
    match Json.decode? VectorIndex.snapshotDecoder text with
    | some (dimension, records) => (new dimension).take records
    | none => new none

/-- Both ids are there, and the first one came in before the second. -/
def Precedes (ledger : Ledger) (first second : String) : Prop :=
  ∃ earlier later, ledger.held first = some earlier ∧ ledger.held second = some later ∧
    earlier.time < later.time

variable {ledger : Ledger} {id first second : String}

theorem held_put (ledger : Ledger) (record : IndexRecord) (id : String) :
    (ledger.put record).held id =
      if id = record.id then some ⟨((ledger.held id).map (·.time)).getD ledger.time, record⟩
      else ledger.held id := rfl

theorem held_drop (ledger : Ledger) (gone : String → Bool) (id : String) :
    (ledger.drop gone).held id = if gone id then none else ledger.held id := rfl

/-- A record that replaces another one leaves the times as they were. -/
theorem held_put_of_held (record : IndexRecord) {arrival : Arrival}
    (held : ledger.held id = some arrival) :
    ∃ now, (ledger.put record).held id = some now ∧ now.time = arrival.time := by
  by_cases same : id = record.id
  · refine ⟨⟨arrival.time, record⟩, ?_, rfl⟩
    rw [held_put, if_pos same, held]
    rfl
  · refine ⟨arrival, ?_, rfl⟩
    rw [held_put, if_neg same, held]

theorem Precedes.put (precedes : ledger.Precedes first second) (record : IndexRecord) :
    (ledger.put record).Precedes first second := by
  obtain ⟨earlier, later, atFirst, atSecond, before⟩ := precedes
  obtain ⟨nowFirst, heldFirst, timeFirst⟩ := held_put_of_held record atFirst
  obtain ⟨nowSecond, heldSecond, timeSecond⟩ := held_put_of_held record atSecond
  exact ⟨nowFirst, nowSecond, heldFirst, heldSecond, by omega⟩

/-- An id that is not there comes in after all that are. -/
theorem precedes_put_of_held {record : IndexRecord} {arrival : Arrival}
    (held : ledger.held id = some arrival) (past : arrival.time < ledger.time)
    (unknown : ledger.held record.id = none) : (ledger.put record).Precedes id record.id := by
  obtain ⟨now, heldNow, time⟩ := held_put_of_held record held
  refine ⟨now, ⟨ledger.time, record⟩, heldNow, ?_, ?_⟩
  · rw [held_put, if_pos rfl, unknown]
    rfl
  · rw [time]
    exact past

theorem Precedes.drop {gone : String → Bool} (precedes : ledger.Precedes first second)
    (left : gone first = false) (right : gone second = false) :
    (ledger.drop gone).Precedes first second := by
  obtain ⟨earlier, later, atFirst, atSecond, before⟩ := precedes
  refine ⟨earlier, later, ?_, ?_, before⟩
  · rw [held_drop, if_neg (by simp [left]), atFirst]
  · rw [held_drop, if_neg (by simp [right]), atSecond]

end Ledger

end CodeAtlas
