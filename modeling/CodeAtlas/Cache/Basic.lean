import CodeAtlas.Pattern.Parse

namespace CodeAtlas

structure CacheEntry (α : Type) where
  key : String
  value : α
  /-- When the entry was written or last found. -/
  timestamp : Nat
  /-- How often the entry was found, counted in 64 bits. -/
  accessCount : Nat
  deriving Repr, DecidableEq

/-- What has happened to a cache. Fewer than `2 ^ 64` steps of a new cache cannot count beyond 64 bits, as
`Cache.countedBy_afterAll` says. -/
structure CacheStats where
  hits : Nat
  misses : Nat
  evictions : Nat
  expirations : Nat
  deriving Repr, DecidableEq

def CacheStats.zero : CacheStats := ⟨0, 0, 0, 0⟩

/-- The entries stand from the one used longest ago to the one used last. -/
structure Cache (α : Type) where
  capacity : Nat
  ttl : Nat
  entries : List (CacheEntry α)
  stats : CacheStats
  /-- Whether the count of an entry was to go beyond 64 bits. The program has aborted then. -/
  overflowed : Bool
  deriving Repr, DecidableEq

namespace Cache

variable {α : Type}

/-- Times to live go up to this. -/
def maxTtl : Nat := UInt64.size - 1

/-- A time to live of so many seconds. -/
def ttlOfSeconds (seconds : Nat) : Nat := min (seconds * 1000) maxTtl

/-- An empty cache with room for at least one entry. -/
def new (capacity ttl : Nat) : Cache α := ⟨max capacity 1, ttl, [], .zero, false⟩

/-- Whether an entry is too old to be found. -/
def isExpired (cache : Cache α) (now : Nat) (entry : CacheEntry α) : Bool :=
  cache.ttl < now - entry.timestamp

def find? (cache : Cache α) (key : String) : Option (CacheEntry α) :=
  cache.entries.find? (·.key == key)

/-- The entries of all other keys. -/
def others (cache : Cache α) (key : String) : List (CacheEntry α) :=
  cache.entries.filter (·.key != key)

/-- The largest count of an entry. -/
def fullCount : Nat := UInt64.size - 1

/-- An entry after it was found once more. Where there is no larger count the program aborts, see
`get?`. -/
def touch (now : Nat) (entry : CacheEntry α) : CacheEntry α :=
  { entry with timestamp := now, accessCount := min (entry.accessCount + 1) fullCount }

/-- Looks a key up. An entry that is found is used last and lives on from now; one that is too old
is dropped. -/
def get (cache : Cache α) (now : Nat) (key : String) : Option α × Cache α :=
  match cache.find? key with
  | none => (none, { cache with stats := { cache.stats with misses := cache.stats.misses + 1 } })
  | some entry =>
    if cache.isExpired now entry then
      (none,
        { cache with
          entries := cache.others key
          stats :=
            { cache.stats with
              misses := cache.stats.misses + 1
              expirations := cache.stats.expirations + 1 } })
    else
      (some entry.value,
        { cache with
          entries := cache.others key ++ [touch now entry]
          stats := { cache.stats with hits := cache.stats.hits + 1 }
          overflowed := cache.overflowed || fullCount ≤ entry.accessCount })

/-- Looks a key up, unless the program aborts as there is no larger count for the entry. -/
def get? (cache : Cache α) (now : Nat) (key : String) : Option (Option α × Cache α) :=
  let looked := cache.get now key
  if looked.2.overflowed then none else some looked

/-- Whether an entry would push out another one. -/
def evicts (cache : Cache α) (key : String) : Bool :=
  (cache.find? key).isNone && cache.capacity ≤ cache.entries.length

/-- Puts an entry in the place of its key, or of the entry used longest ago if there is no room;
it is used last. -/
def place (cache : Cache α) (entry : CacheEntry α) : Cache α :=
  let kept := if cache.evicts entry.key then cache.entries.tail else cache.others entry.key
  { cache with entries := kept ++ [entry] }

/-- Writes a value under a key. -/
def set (cache : Cache α) (now : Nat) (key : String) (value : α) : Cache α :=
  let stats :=
    if cache.evicts key then { cache.stats with evictions := cache.stats.evictions + 1 }
    else cache.stats
  { cache.place ⟨key, value, now, 0⟩ with stats }

/-- Whether a key would be found; this is no use of it. -/
def contains (cache : Cache α) (now : Nat) (key : String) : Bool :=
  (cache.find? key).any fun entry => !cache.isExpired now entry

/-- Drops a key; yields the value it had, however old. -/
def remove (cache : Cache α) (key : String) : Option α × Cache α :=
  ((cache.find? key).map (·.value), { cache with entries := cache.others key })

/-- Drops the keys that satisfy `p`; yields how many they were. -/
def removeWhere (cache : Cache α) (p : String → Bool) : Nat × Cache α :=
  (cache.entries.countP fun entry => p entry.key,
    { cache with entries := cache.entries.filter fun entry => !p entry.key })

/-- Drops the keys in which a pattern occurs; none if the pattern is malformed. -/
def invalidate? [PatternLimit] (cache : Cache α) (pattern : String) : Option (Nat × Cache α) :=
  (Pattern.parse? pattern).map fun pattern => cache.removeWhere pattern.occursIn

def clear (cache : Cache α) : Nat × Cache α :=
  (cache.entries.length, { cache with entries := [] })

end Cache

end CodeAtlas
