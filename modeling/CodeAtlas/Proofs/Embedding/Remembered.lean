import CodeAtlas.Proofs.Cache.Recent
import CodeAtlas.Proofs.Embedding.Transparent
import Mathlib.Data.List.Dedup

namespace CodeAtlas.EmbeddingCache

open Cache

/-- What a cache of vectors is asked. -/
inductive Request (ε : Type) where
  | find (text : String)
  | insert (text : String) (vector : Embedding)
  | findOrCompute (text : String) (compute : String → Except ε Embedding)

variable {ε : Type}

def Request.text : Request ε → String
  | .find text => text
  | .insert text _ => text
  | .findOrCompute text _ => text

/-- The cache after a request during which the clock shows these times. -/
def during (cache : EmbeddingCache) (clock : Nat → Nat) : Request ε → EmbeddingCache
  | .find text => (cache.find (clock 0) text).2
  | .insert text vector => cache.insert (clock 0) text vector
  | .findOrCompute text compute => (cache.findOrComputeDuring clock text compute).cache

def duringAll (cache : EmbeddingCache) (history : List ((Nat → Nat) × Request ε)) : EmbeddingCache :=
  history.foldl (fun cache event => cache.during event.1 event.2) cache

variable {cache : EmbeddingCache} {clock : Nat → Nat} {text : String} {vector : Embedding}
  {since : Nat} {compute : String → Except ε Embedding} {entry : CacheEntry Embedding}
  {used : List String}

theorem findOrComputeDuring_of_found (found : (cache.find (clock 0) text).1 = some vector) :
    cache.findOrComputeDuring clock text compute =
      ⟨.ok vector, false, (cache.find (clock 0) text).2⟩ := by
  rw [findOrComputeDuring, ← Prod.mk.eta (p := cache.find (clock 0) text), found]

theorem findOrComputeDuring_of_missing (missing : (cache.find (clock 0) text).1 = none) :
    cache.findOrComputeDuring clock text compute =
      ⟨compute text, true,
        match compute text with
        | .ok vector => (cache.find (clock 0) text).2.insert (clock 1) text vector
        | .error _ => (cache.find (clock 0) text).2⟩ := by
  rw [findOrComputeDuring, ← Prod.mk.eta (p := cache.find (clock 0) text), missing]
  cases compute text <;> rfl

/-- A cache that has an entry still, with room for entries of all keys that were used since. -/
structure Remembers (cache : EmbeddingCache) (entry : CacheEntry Embedding) (used : List String) :
    Prop where
  recent : IsRecent entry used cache.entries
  room : used.length ≤ cache.capacity - 1

theorem limits_find (cache : EmbeddingCache) (now : Nat) (text : String) :
    (cache.find now text).2.capacity = cache.capacity ∧ (cache.find now text).2.ttl = cache.ttl := by
  rw [find, get_cache]
  exact ⟨rfl, rfl⟩

namespace Remembers

theorem find (remembers : cache.Remembers entry used) (known : keyOf text ∈ used)
    (other : keyOf text ≠ entry.key) (now : Nat) :
    (cache.find now text).2.Remembers entry used :=
  ⟨remembers.recent.get known other now, by
    rw [(cache.limits_find now text).1]
    exact remembers.room⟩

theorem insert (remembers : cache.Remembers entry used) (known : keyOf text ∈ used)
    (other : keyOf text ≠ entry.key) (now : Nat) (vector : Embedding) :
    (cache.insert now text vector).Remembers entry used :=
  ⟨remembers.recent.set known other remembers.room now vector, remembers.room⟩

theorem during {request : Request ε} (remembers : cache.Remembers entry used)
    (known : keyOf request.text ∈ used) (other : keyOf request.text ≠ entry.key) (clock : Nat → Nat) :
    (cache.during clock request).Remembers entry used := by
  cases request with
  | find text => exact remembers.find known other (clock 0)
  | insert text vector => exact remembers.insert known other (clock 0) vector
  | findOrCompute text compute =>
    have looked := remembers.find known other (clock 0)
    rw [EmbeddingCache.during]
    cases found : (cache.find (clock 0) text).1 with
    | some vector =>
      rw [findOrComputeDuring_of_found found]
      exact looked
    | none =>
      rw [findOrComputeDuring_of_missing found]
      cases compute text with
      | ok vector => exact looked.insert known other (clock 1) vector
      | error error => exact looked

theorem duringAll {history : List ((Nat → Nat) × Request ε)} (remembers : cache.Remembers entry used)
    (known : ∀ event ∈ history, keyOf event.2.text ∈ used)
    (other : ∀ event ∈ history, keyOf event.2.text ≠ entry.key) :
    (cache.duringAll history).Remembers entry used := by
  induction history generalizing cache with
  | nil => exact remembers
  | cons event history ih =>
    obtain ⟨here, there⟩ := List.forall_mem_cons.mp known
    obtain ⟨here', there'⟩ := List.forall_mem_cons.mp other
    exact ih (remembers.during here here' event.1) there there'

end Remembers

end CodeAtlas.EmbeddingCache
