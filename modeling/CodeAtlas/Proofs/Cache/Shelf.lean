import CodeAtlas.Cache.Snapshot
import CodeAtlas.Proofs.Cache.Lookup

namespace CodeAtlas

/-- Entries under keys, from the one used longest ago to the one used last. -/
abbrev Slots (α : Type) := List (String × CacheEntry α)

namespace Slots

variable {α : Type}

def peek? (slots : Slots α) (key : String) : Option (CacheEntry α) := slots.lookup key

def pop (slots : Slots α) (key : String) : Slots α := slots.filter (·.1 != key)

/-- Changes the entry of a key, which is used last then. -/
def promote (slots : Slots α) (key : String) (change : CacheEntry α → CacheEntry α) : Slots α :=
  match slots.peek? key with
  | some entry => slots.pop key ++ [(key, change entry)]
  | none => slots

/-- Puts an entry under a key, which is used last then. A new key for which there is no room takes
the place of the one used longest ago. -/
def put (capacity : Nat) (slots : Slots α) (key : String) (entry : CacheEntry α) : Slots α :=
  match slots.peek? key with
  | some _ => slots.pop key ++ [(key, entry)]
  | none => (if capacity ≤ slots.length then slots.tail else slots) ++ [(key, entry)]

end Slots

/-- A cache as it is kept. -/
structure Shelf (α : Type) where
  capacity : Nat
  ttl : Nat
  slots : Slots α
  stats : CacheStats
  overflowed : Bool

namespace Shelf

variable {α : Type}

def new (capacity ttl : Nat) : Shelf α := ⟨max capacity 1, ttl, [], .zero, false⟩

def get (shelf : Shelf α) (now : Nat) (key : String) : Option α × Shelf α :=
  match shelf.slots.peek? key with
  | none => (none, { shelf with stats := { shelf.stats with misses := shelf.stats.misses + 1 } })
  | some entry =>
    if shelf.ttl < now - entry.timestamp then
      (none,
        { shelf with
          slots := shelf.slots.pop key
          stats :=
            { shelf.stats with
              misses := shelf.stats.misses + 1
              expirations := shelf.stats.expirations + 1 } })
    else
      (some entry.value,
        { shelf with
          slots := shelf.slots.promote key (Cache.touch now)
          stats := { shelf.stats with hits := shelf.stats.hits + 1 }
          overflowed := shelf.overflowed || Cache.fullCount ≤ entry.accessCount })

/-- A new key for which there is no room pushes out the one used longest ago before it is put in. -/
def set (shelf : Shelf α) (now : Nat) (key : String) (value : α) : Shelf α :=
  let entry : CacheEntry α := ⟨key, value, now, 0⟩
  if (shelf.slots.peek? key).isNone && shelf.capacity ≤ shelf.slots.length then
    match shelf.slots with
    | [] => { shelf with slots := Slots.put shelf.capacity [] key entry }
    | _ :: rest =>
      { shelf with
        slots := Slots.put shelf.capacity rest key entry
        stats := { shelf.stats with evictions := shelf.stats.evictions + 1 } }
  else { shelf with slots := shelf.slots.put shelf.capacity key entry }

/-- Drops the keys in which a pattern occurs, one after the other. -/
def invalidate? [PatternLimit] (shelf : Shelf α) (pattern : String) : Option (Nat × Shelf α) :=
  (Pattern.parse? pattern).map fun pattern =>
    let found := (shelf.slots.filter fun slot => pattern.occursIn slot.1).map (·.1)
    (found.length, { shelf with slots := found.foldl Slots.pop shelf.slots })

def after [PatternLimit] (shelf : Shelf α) (now : Nat) : Cache.Step α → Shelf α
  | .set key value => shelf.set now key value
  | .get key => (shelf.get now key).2
  | .contains _ => shelf
  | .remove key => { shelf with slots := shelf.slots.pop key }
  | .invalidate pattern => ((shelf.invalidate? pattern).map (·.2)).getD shelf
  | .clear => { shelf with slots := [] }

def save (encode : α → Json) (shelf : Shelf α) : String :=
  (Json.object [("entries",
    .array (shelf.slots.map fun slot => Cache.encodeEntry encode slot.2))]).render

def load (value : Json.Decoder α) (capacity ttl now : Nat) (text : Option String) : Shelf α :=
  match text.bind (Json.decode? (Cache.entriesDecoder value)) with
  | none => new capacity ttl
  | some entries =>
    let shelf : Shelf α := new capacity ttl
    { shelf with
      slots := (entries.filter fun entry => now - entry.timestamp < ttl).foldl
        (fun slots entry => slots.put shelf.capacity entry.key entry) shelf.slots }

end Shelf

namespace Cache

variable {α : Type} {cache : Cache α} {entries : List (CacheEntry α)} {key : String}
  {entry : CacheEntry α}

/-- Every entry under its own key. -/
def slots (entries : List (CacheEntry α)) : Slots α := entries.map fun entry => (entry.key, entry)

/-- The cache as it is kept. -/
def shelf (cache : Cache α) : Shelf α :=
  ⟨cache.capacity, cache.ttl, slots cache.entries, cache.stats, cache.overflowed⟩

/-- There is room for what is held, and for something at all. -/
structure HasRoom (cache : Cache α) : Prop where
  room : 0 < cache.capacity
  fits : cache.entries.length ≤ cache.capacity

theorem peek?_slots (entries : List (CacheEntry α)) (key : String) :
    (slots entries).peek? key = entries.find? (·.key == key) := by
  induction entries with
  | nil => rfl
  | cons entry entries ih =>
    have others : (slots entries).lookup key = entries.find? (·.key == key) := ih
    have front : (slots (entry :: entries)).peek? key =
        match key == entry.key with
        | true => some entry
        | false => (slots entries).lookup key := rfl
    rw [front, List.find?_cons, others, BEq.comm]
    cases entry.key == key <;> rfl

theorem pop_slots (entries : List (CacheEntry α)) (key : String) :
    (slots entries).pop key = slots (entries.filter (·.key != key)) := by
  unfold Slots.pop slots
  rw [List.filter_map]
  rfl

theorem slots_append (entries more : List (CacheEntry α)) :
    slots (entries ++ more) = slots entries ++ slots more := List.map_append

theorem promote_slots (now : Nat) (found : cache.find? key = some entry) :
    (slots cache.entries).promote key (touch now) = slots (cache.others key ++ [touch now entry]) := by
  have peeked : (slots cache.entries).peek? key = some entry := (peek?_slots _ _).trans found
  obtain ⟨_, rfl⟩ := mem_of_find? found
  unfold Slots.promote
  rw [peeked, pop_slots, slots_append]
  rfl

theorem put_slots (capacity : Nat) (entries : List (CacheEntry α)) (entry : CacheEntry α) :
    (slots entries).put capacity entry.key entry =
      slots ((if (entries.find? (·.key == entry.key)).isNone && capacity ≤ entries.length
        then entries.tail else entries.filter (·.key != entry.key)) ++ [entry]) := by
  unfold Slots.put
  rw [peek?_slots, slots_append]
  cases found : entries.find? (·.key == entry.key) with
  | some old =>
    rw [pop_slots]
    rfl
  | none =>
    have all : entries.filter (·.key != entry.key) = entries := by
      rw [List.filter_eq_self]
      simpa using found
    have length : (slots entries).length = entries.length := List.length_map _
    have tail : (slots entries).tail = slots entries.tail := List.map_tail.symm
    rw [length, tail, all]
    by_cases full : capacity ≤ entries.length <;> simp [full, slots]

theorem put_place (cache : Cache α) (entry : CacheEntry α) :
    (slots cache.entries).put cache.capacity entry.key entry = slots (cache.place entry).entries :=
  put_slots cache.capacity cache.entries entry

theorem shelf_get (cache : Cache α) (now : Nat) (key : String) :
    cache.shelf.get now key = ((cache.get now key).1, (cache.get now key).2.shelf) := by
  have peeked : cache.shelf.slots.peek? key = cache.find? key := peek?_slots cache.entries key
  have popped : cache.shelf.slots.pop key = slots (cache.others key) := pop_slots cache.entries key
  unfold Shelf.get get
  rw [peeked]
  cases found : cache.find? key with
  | none => rfl
  | some entry =>
    have promoted := promote_slots now found
    by_cases old : cache.ttl < now - entry.timestamp
    · have expired : cache.isExpired now entry = true := decide_eq_true old
      have late : cache.shelf.ttl < now - entry.timestamp := old
      simp only [if_pos late, if_pos expired, popped]
      rfl
    · have live : ¬ cache.isExpired now entry = true := by simpa [isExpired] using old
      have late : ¬ cache.shelf.ttl < now - entry.timestamp := old
      simp only [if_neg late, if_neg live]
      exact congrArg (fun slots => (some entry.value, Shelf.mk _ _ slots _ _)) promoted

theorem shelf_set (roomy : cache.HasRoom) (now : Nat) (key : String) (value : α) :
    cache.shelf.set now key value = (cache.set now key value).shelf := by
  have peeked : cache.shelf.slots.peek? key = cache.find? key := peek?_slots cache.entries key
  have length : cache.shelf.slots.length = cache.entries.length := List.length_map _
  have placed := cache.put_place ⟨key, value, now, 0⟩
  unfold Shelf.set set
  dsimp only
  rw [peeked, length]
  by_cases full : cache.evicts key = true
  · have condition : ((cache.find? key).isNone && decide (cache.shelf.capacity ≤ cache.entries.length)) =
        true := full
    obtain ⟨absent, reached⟩ := evicts_iff.mp full
    obtain ⟨oldest, rest, held⟩ := List.exists_cons_of_length_pos (Nat.lt_of_lt_of_le roomy.room reached)
    have slotted : cache.shelf.slots = (oldest.key, oldest) :: slots rest := by
      rw [show cache.shelf.slots = slots cache.entries from rfl, held]
      rfl
    have left : rest.length < cache.capacity := by
      have fits := roomy.fits
      rw [held, List.length_cons] at fits
      exact fits
    have other : rest.find? (·.key == key) = none := by
      have none := absent
      rw [find?, held, List.find?_cons] at none
      split at none
      · cases none
      · exact none
    have put := put_slots cache.capacity rest ⟨key, value, now, 0⟩
    have kept : rest.filter (·.key != key) = rest := by
      rw [List.filter_eq_self]
      simpa using other
    rw [if_pos condition, if_pos full, slotted]
    unfold shelf place
    rw [if_pos full, held]
    simp only [List.tail_cons]
    refine congrArg (fun slots => Shelf.mk _ _ slots _ _) (put.trans ?_)
    rw [other, if_neg (by simpa using left), kept]
  · have condition : ¬ ((cache.find? key).isNone &&
        decide (cache.shelf.capacity ≤ cache.entries.length)) = true := full
    rw [if_neg condition, if_neg full]
    exact congrArg (fun slots => Shelf.mk _ _ slots _ _) placed

theorem foldl_pop (slots : Slots α) (keys : List String) :
    keys.foldl Slots.pop slots = slots.filter fun slot => !keys.contains slot.1 := by
  induction keys generalizing slots with
  | nil => exact (List.filter_eq_self.mpr fun _ _ => rfl).symm
  | cons key keys ih =>
    rw [List.foldl_cons, ih, Slots.pop, List.filter_filter]
    refine List.filter_congr fun slot _ => ?_
    rw [List.contains_cons, Bool.not_or, Bool.and_comm, bne]

theorem shelf_invalidate? [PatternLimit] (cache : Cache α) (pattern : String) :
    cache.shelf.invalidate? pattern =
      (cache.invalidate? pattern).map fun found => (found.1, found.2.shelf) := by
  unfold Shelf.invalidate? invalidate?
  rw [Option.map_map]
  refine congrArg (Option.map · _) (funext fun pattern => ?_)
  have found : (cache.shelf.slots.filter fun slot => pattern.occursIn slot.1).map (·.1) =
      (cache.entries.filter fun entry => pattern.occursIn entry.key).map (·.key) := by
    rw [show cache.shelf.slots = slots cache.entries from rfl, slots, List.filter_map, List.map_map]
    rfl
  have dropped : cache.shelf.slots.filter (fun slot =>
        !((cache.entries.filter fun entry => pattern.occursIn entry.key).map (·.key)).contains slot.1) =
      slots (cache.entries.filter fun entry => !pattern.occursIn entry.key) := by
    rw [show cache.shelf.slots = slots cache.entries from rfl, slots, List.filter_map, slots]
    refine congrArg (List.map _) (List.filter_congr fun entry member => ?_)
    refine congrArg (!·) (Bool.eq_iff_iff.mpr ?_)
    simp only [List.contains_iff_mem, List.mem_map, List.mem_filter]
    constructor
    · rintro ⟨other, ⟨_, occurs⟩, keyed⟩
      rwa [keyed] at occurs
    · intro occurs
      exact ⟨entry, ⟨member, occurs⟩, rfl⟩
  simp only [found, foldl_pop, dropped]
  rw [List.length_map, ← List.countP_eq_length_filter]
  rfl

/-- A cache that has room is kept step by step as its entries say. -/
theorem shelf_after [PatternLimit] (roomy : cache.HasRoom) (now : Nat) (step : Step α) :
    cache.shelf.after now step = (cache.after now step).shelf := by
  cases step with
  | set key value => exact shelf_set roomy now key value
  | get key => exact congrArg Prod.snd (shelf_get cache now key)
  | contains key => rfl
  | remove key => exact congrArg (fun slots => Shelf.mk _ _ slots _ _) (pop_slots cache.entries key)
  | invalidate pattern =>
    change ((cache.shelf.invalidate? pattern).map (·.2)).getD cache.shelf =
      (((cache.invalidate? pattern).map (·.2)).getD cache).shelf
    rw [shelf_invalidate?]
    cases cache.invalidate? pattern <;> rfl
  | clear => rfl

theorem shelf_save (encode : α → Json) (cache : Cache α) : cache.shelf.save encode = cache.save encode := by
  have entries : cache.shelf.slots.map (fun slot => encodeEntry encode slot.2) =
      cache.entries.map (encodeEntry encode) := List.map_map
  rw [Shelf.save, entries]
  rfl

theorem foldl_put_slots (entries : List (CacheEntry α)) (cache : Cache α) :
    entries.foldl (fun slots entry => slots.put cache.capacity entry.key entry) (slots cache.entries) =
      slots (entries.foldl place cache).entries := by
  induction entries generalizing cache with
  | nil => rfl
  | cons entry entries ih =>
    rw [List.foldl_cons, List.foldl_cons, put_place]
    exact ih (cache.place entry)

theorem foldl_place_eq (entries : List (CacheEntry α)) (cache : Cache α) :
    entries.foldl place cache = { cache with entries := (entries.foldl place cache).entries } := by
  induction entries generalizing cache with
  | nil => rfl
  | cons entry entries ih => exact ih (cache.place entry)

theorem shelf_load (value : Json.Decoder α) (capacity ttl now : Nat) (text : Option String) :
    Shelf.load value capacity ttl now text = (load value capacity ttl now text).shelf := by
  unfold Shelf.load load
  cases text.bind (Json.decode? (entriesDecoder value)) with
  | none => rfl
  | some entries =>
    have put := foldl_put_slots (entries.filter fun entry => now - entry.timestamp < ttl) (new capacity ttl)
    have rest := foldl_place_eq (entries.filter fun entry => now - entry.timestamp < ttl) (new capacity ttl)
    change Shelf.mk _ _ _ _ _ = ((entries.filter fun entry => now - entry.timestamp < ttl).foldl place
      (new capacity ttl)).shelf
    rw [rest]
    exact congrArg (fun slots => Shelf.mk _ _ slots _ _) put

end Cache

end CodeAtlas
