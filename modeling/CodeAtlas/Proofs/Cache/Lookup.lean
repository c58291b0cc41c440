import CodeAtlas.Cache.Basic

namespace CodeAtlas.Cache

variable {α : Type} {cache : Cache α} {now : Nat} {key : String} {entry : CacheEntry α}

theorem find?_eq_none_iff :
    cache.find? key = none ↔ ∀ entry ∈ cache.entries, entry.key ≠ key := by
  simp [find?]

theorem mem_of_find? (found : cache.find? key = some entry) :
    entry ∈ cache.entries ∧ entry.key = key :=
  ⟨List.mem_of_find?_eq_some found, by simpa using List.find?_some found⟩

theorem others_of_find?_none (absent : cache.find? key = none) :
    cache.others key = cache.entries := by
  rw [find?_eq_none_iff] at absent
  simpa [others] using absent

theorem length_others_lt (found : cache.find? key = some entry) :
    (cache.others key).length < cache.entries.length := by
  obtain ⟨member, keyed⟩ := mem_of_find? found
  rw [others, List.length_filter_lt_length_iff_exists]
  exact ⟨entry, member, by simp [keyed]⟩

/-- The entry that a look-up finds. -/
def live? (cache : Cache α) (now : Nat) (key : String) : Option (CacheEntry α) :=
  (cache.find? key).filter fun entry => !cache.isExpired now entry

theorem mem_of_live? (live : cache.live? now key = some entry) :
    entry ∈ cache.entries ∧ entry.key = key :=
  mem_of_find? (Option.filter_eq_some_iff.mp live).1

theorem get_value (cache : Cache α) (now : Nat) (key : String) :
    (cache.get now key).1 = (cache.live? now key).map (·.value) := by
  unfold get live?
  cases cache.find? key with
  | none => rfl
  | some entry => cases expired : cache.isExpired now entry <;> simp [expired, Option.filter]

/-- Whatever a look-up comes to, the other entries stay; the one that is found goes to the end. -/
theorem get_cache (cache : Cache α) (now : Nat) (key : String) :
    (cache.get now key).2 =
      { cache with
        entries := cache.others key ++ ((cache.live? now key).map (touch now)).toList
        stats := (cache.get now key).2.stats
        overflowed := (cache.get now key).2.overflowed } := by
  unfold get live?
  cases found : cache.find? key with
  | none => simp [others_of_find?_none found]
  | some entry => cases expired : cache.isExpired now entry <;> simp [expired, Option.filter]

theorem get_of_absent (absent : cache.find? key = none) :
    cache.get now key =
      (none, { cache with stats := { cache.stats with misses := cache.stats.misses + 1 } }) := by
  rw [get, absent]

theorem get_of_expired (found : cache.find? key = some entry)
    (expired : cache.isExpired now entry = true) :
    cache.get now key =
      (none,
        { cache with
          entries := cache.others key
          stats :=
            { cache.stats with
              misses := cache.stats.misses + 1
              expirations := cache.stats.expirations + 1 } }) := by
  rw [get, found]
  exact if_pos expired

theorem get_of_live (found : cache.find? key = some entry)
    (live : cache.isExpired now entry = false) :
    cache.get now key =
      (some entry.value,
        { cache with
          entries := cache.others key ++ [touch now entry]
          stats := { cache.stats with hits := cache.stats.hits + 1 }
          overflowed := cache.overflowed || fullCount ≤ entry.accessCount }) := by
  rw [get, found]
  exact if_neg (ne_true_of_eq_false live)

/-- An entry that was just found is as young as can be. -/
theorem live?_get_self (cache : Cache α) (now : Nat) (key : String) :
    (cache.get now key).2.live? now key = (cache.live? now key).map (touch now) := by
  have dropped : (cache.others key).find? (·.key == key) = none := by
    simp [others]
  rw [get_cache, live?, find?, List.find?_append, dropped, Option.none_or]
  cases live : cache.live? now key with
  | none => rfl
  | some entry => simp [touch, isExpired, (mem_of_live? live).2, Option.filter]

theorem evicts_iff :
    cache.evicts key = true ↔
      cache.find? key = none ∧ cache.capacity ≤ cache.entries.length := by
  simp [evicts]

/-- What stays when a key is written. -/
def kept (cache : Cache α) (key : String) : List (CacheEntry α) :=
  if cache.evicts key then cache.entries.tail else cache.others key

theorem set_cache (cache : Cache α) (now : Nat) (key : String) (value : α) :
    cache.set now key value =
      { cache with
        entries := cache.kept key ++ [⟨key, value, now, 0⟩]
        stats := (cache.set now key value).stats } := rfl

/-- What a cache is asked to do. -/
inductive Step (α : Type) where
  | set (key : String) (value : α)
  | get (key : String)
  | contains (key : String)
  | remove (key : String)
  | invalidate (pattern : String)
  | clear

/-- The cache after a step. A malformed pattern leaves it as it was. -/
def after [PatternLimit] (cache : Cache α) (now : Nat) : Step α → Cache α
  | .set key value => cache.set now key value
  | .get key => (cache.get now key).2
  | .contains _ => cache
  | .remove key => (cache.remove key).2
  | .invalidate pattern => ((cache.invalidate? pattern).map (·.2)).getD cache
  | .clear => cache.clear.2

/-- The cache after a run of steps, each at a time of its own. The clock may stand still or go back. -/
def afterAll [PatternLimit] (cache : Cache α) (history : List (Nat × Step α)) : Cache α :=
  history.foldl (fun cache event => cache.after event.1 event.2) cache

end CodeAtlas.Cache
