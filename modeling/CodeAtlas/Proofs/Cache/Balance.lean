import CodeAtlas.Proofs.Cache.Holds
import CodeAtlas.Proofs.Cache.Inclusion
import CodeAtlas.Proofs.Cache.RoundTrip
import Mathlib.Data.List.Induction

namespace CodeAtlas.Cache

variable {α : Type}

/-- What a cache was asked and what came of it. -/
structure Tally where
  /-- How often a key was looked up. -/
  lookUps : Nat := 0
  /-- How often a look-up yielded a value. -/
  found : Nat := 0
  /-- How often a look-up came upon an entry that was too old. -/
  expired : Nat := 0
  /-- How often a key was written that had no entry. -/
  added : Nat := 0
  /-- How often a key was removed that yielded a value. -/
  removed : Nat := 0
  /-- How many entries were dropped by a pattern or all at once, as it was answered. -/
  dropped : Nat := 0
  deriving DecidableEq, Repr

instance : Add Tally where
  add first second := {
    lookUps := first.lookUps + second.lookUps
    found := first.found + second.found
    expired := first.expired + second.expired
    added := first.added + second.added
    removed := first.removed + second.removed
    dropped := first.dropped + second.dropped }

theorem Tally.add_eq (first second : Tally) :
    first + second = {
      lookUps := first.lookUps + second.lookUps
      found := first.found + second.found
      expired := first.expired + second.expired
      added := first.added + second.added
      removed := first.removed + second.removed
      dropped := first.dropped + second.dropped } := rfl

def tally [PatternLimit] (cache : Cache α) (now : Nat) : Step α → Tally
  | .set key _ => { added := (cache.find? key).isNone.toNat }
  | .get key =>
    { lookUps := 1
      found := (cache.get now key).1.isSome.toNat
      expired := ((cache.find? key).any (cache.isExpired now)).toNat }
  | .contains _ => {}
  | .remove key => { removed := (cache.remove key).1.isSome.toNat }
  | .invalidate pattern => { dropped := ((cache.invalidate? pattern).map (·.1)).getD 0 }
  | .clear => { dropped := cache.clear.1 }

def tallyAll [PatternLimit] (cache : Cache α) : List (Nat × Step α) → Tally
  | [] => {}
  | (now, step) :: history => cache.tally now step + (cache.after now step).tallyAll history

variable {cache : Cache α} {now : Nat} {key : String} {value : α} {entry : CacheEntry α}

/-- There is room for something, and no two entries share a key. -/
structure Tidy (cache : Cache α) : Prop where
  room : 0 < cache.capacity
  distinct : (cache.entries.map (·.key)).Nodup

theorem tidy_new (capacity ttl : Nat) : (new capacity ttl : Cache α).Tidy :=
  ⟨Nat.le_max_right .., List.nodup_nil⟩

namespace Tidy

theorem after [PatternLimit] (tidy : cache.Tidy) (now : Nat) (step : Step α) :
    (cache.after now step).Tidy := by
  have within : Within cache cache :=
    ⟨rfl, tidy.room, tidy.distinct, List.Sublist.refl _, Nat.le_refl _⟩
  exact ⟨(within.after now step).positive, (within.after now step).distinct⟩

/-- The entry of a key is the only one that is not among the others. -/
theorem length_others (tidy : cache.Tidy) (found : cache.find? key = some entry) :
    (cache.others key).length + 1 = cache.entries.length := by
  obtain ⟨member, keyed⟩ := mem_of_find? found
  have once : cache.entries.countP (·.key == key) = 1 := by
    have counted : (cache.entries.map (·.key)).count key = 1 :=
      List.count_eq_one_of_mem tidy.distinct (List.mem_map.mpr ⟨entry, member, keyed⟩)
    rwa [List.count, List.countP_map] at counted
  have split := cache.entries.length_eq_length_filter_add (·.key == key)
  rw [← List.countP_eq_length_filter, once, Nat.add_comm] at split
  exact split.symm

end Tidy

/-- What a cache counts on the way from one state to another, and how many entries it has more or
less, is what came of what it was asked. -/
structure Accounts (tally : Tally) (before after : Cache α) : Prop where
  hits : after.stats.hits = before.stats.hits + tally.found
  lookUps : after.stats.hits + after.stats.misses =
    before.stats.hits + before.stats.misses + tally.lookUps
  expirations : after.stats.expirations = before.stats.expirations + tally.expired
  missed : after.stats.expirations + before.stats.misses ≤
    before.stats.expirations + after.stats.misses
  length : after.entries.length + after.stats.evictions + after.stats.expirations + tally.removed +
      tally.dropped =
    before.entries.length + before.stats.evictions + before.stats.expirations + tally.added

namespace Accounts

theorem refl (cache : Cache α) : Accounts {} cache cache := ⟨rfl, rfl, rfl, Nat.le_refl _, rfl⟩

theorem trans {first second : Tally} {before between after : Cache α}
    (here : Accounts first before between) (there : Accounts second between after) :
    Accounts (first + second) before after := by
  obtain ⟨hits, lookUps, expirations, missed, length⟩ := here
  obtain ⟨hits', lookUps', expirations', missed', length'⟩ := there
  constructor
  case missed => omega
  all_goals
    rw [Tally.add_eq]
    dsimp only
    omega

end Accounts

/-- Nothing is counted but what was looked up and what is too old. -/
theorem accounts_get [PatternLimit] (tidy : cache.Tidy) (now : Nat) (key : String) :
    Accounts (cache.tally now (.get key)) cache (cache.get now key).2 := by
  cases found : cache.find? key with
  | none =>
    have asked : cache.get now key = _ := get_of_absent found
    constructor <;> simp [tally, asked, found]
    omega
  | some entry =>
    have fewer := tidy.length_others found
    cases expired : cache.isExpired now entry with
    | true =>
      have asked := get_of_expired found expired
      constructor <;> simp [tally, asked, found, expired] <;> omega
    | false =>
      have asked := get_of_live found expired
      constructor <;> simp [tally, asked, found, expired] <;> omega

/-- A new entry for which there is no room pushes out one other. -/
theorem accounts_set [PatternLimit] (tidy : cache.Tidy) (now : Nat) (key : String) (value : α) :
    Accounts (cache.tally now (.set key value)) cache (cache.set now key value) := by
  rw [set_cache]
  cases found : cache.find? key with
  | some entry =>
    have fewer := tidy.length_others found
    have free : cache.evicts key = false := by simp [evicts, found]
    constructor <;> simp [tally, set, kept, free, found]
    omega
  | none =>
    cases full : cache.evicts key with
    | true =>
      have reached := (evicts_iff.mp full).2
      have room := tidy.room
      constructor <;> simp [tally, set, kept, full, found]
      omega
    | false =>
      constructor <;> simp [tally, set, kept, full, found, others_of_find?_none found]
      omega

theorem accounts_remove [PatternLimit] (tidy : cache.Tidy) (now : Nat) (key : String) :
    Accounts (cache.tally now (.remove key)) cache (cache.remove key).2 := by
  cases found : cache.find? key with
  | none =>
    constructor <;> simp [tally, remove, found, others_of_find?_none found]
  | some entry =>
    have fewer := tidy.length_others found
    constructor <;> simp [tally, remove, found]
    omega

/-- A malformed pattern drops nothing. -/
theorem accounts_invalidate [PatternLimit] (cache : Cache α) (now : Nat) (pattern : String) :
    Accounts (cache.tally now (.invalidate pattern)) cache (cache.after now (.invalidate pattern)) := by
  cases parsed : Pattern.parse? pattern with
  | none =>
    constructor <;> simp [tally, after, invalidate?, parsed]
  | some parsed' =>
    have split := cache.entries.length_eq_length_filter_add fun entry => parsed'.occursIn entry.key
    rw [← List.countP_eq_length_filter] at split
    constructor <;> simp [tally, after, invalidate?, parsed, removeWhere]
    omega

theorem accounts_after [PatternLimit] (tidy : cache.Tidy) (now : Nat) (step : Step α) :
    Accounts (cache.tally now step) cache (cache.after now step) := by
  cases step with
  | set key value => exact accounts_set tidy now key value
  | get key => exact accounts_get tidy now key
  | contains key => exact .refl cache
  | remove key => exact accounts_remove tidy now key
  | invalidate pattern => exact accounts_invalidate cache now pattern
  | clear =>
    constructor <;> simp [tally, after, clear]
    omega

/-- What holds at every step holds of a whole history. -/
theorem accounts_afterAll [PatternLimit] (tidy : cache.Tidy) (history : List (Nat × Step α)) :
    Accounts (cache.tallyAll history) cache (cache.afterAll history) := by
  induction history generalizing cache with
  | nil => exact .refl cache
  | cons event history ih =>
    exact (accounts_after tidy event.1 event.2).trans (ih (tidy.after event.1 event.2))

/-- The value that a step writes under a key. -/
def Step.written? (key : String) : Step α → Option α
  | .set other value => if other = key then some value else none
  | _ => none

/-- The value that was written last under a key. -/
def lastWritten? (key : String) (history : List (Nat × Step α)) : Option α :=
  history.reverse.findSome? fun event => event.2.written? key

theorem lastWritten?_snoc (key : String) (before : List (Nat × Step α)) (now : Nat) (step : Step α) :
    lastWritten? key (before ++ [(now, step)]) =
      (step.written? key).or (lastWritten? key before) := by
  cases written : step.written? key <;> simp [lastWritten?, written]

theorem Holds.fewer {p : CacheEntry α → Bool}
    (holds : Holds { cache with entries := cache.entries.filter p } key value) :
    cache.Holds key value := by
  obtain ⟨entry, member, same⟩ := holds
  exact ⟨entry, List.mem_of_mem_filter member, same⟩

/-- What is held after a step was written by it, or was held before under a key that it does not
write. -/
theorem Holds.of_after [PatternLimit] {step : Step α} (holds : (cache.after now step).Holds key value) :
    step.written? key = some value ∨ step.written? key = none ∧ cache.Holds key value := by
  cases step with
  | set written new =>
    obtain ⟨entry, member, rfl, rfl⟩ := holds
    rcases List.mem_append.mp member with old | fresh
    · have other : written ≠ entry.key := fun same =>
        cache.key_not_mem_kept written (List.mem_map.mpr ⟨entry, old, same.symm⟩)
      exact .inr ⟨if_neg other, entry, (cache.kept_sublist written).subset old, rfl, rfl⟩
    · obtain rfl := List.mem_singleton.mp fresh
      exact .inl (if_pos rfl)
  | get key => exact .inr ⟨rfl, holds.of_get⟩
  | contains key => exact .inr ⟨rfl, holds⟩
  | remove key => exact .inr ⟨rfl, holds.fewer⟩
  | invalidate pattern =>
    refine .inr ⟨rfl, ?_⟩
    change (((cache.invalidate? pattern).map (·.2)).getD cache).Holds key value at holds
    unfold invalidate? at holds
    cases parsed : Pattern.parse? pattern with
    | none =>
      rw [parsed] at holds
      exact holds
    | some pattern =>
      rw [parsed] at holds
      exact Holds.fewer holds
  | clear => exact absurd holds not_holds_clear

/-- After any history every value that is held is the one that was written last under its key. -/
theorem lastWritten?_of_holds [PatternLimit] {before : List (Nat × Step α)} (capacity ttl : Nat)
    (holds : ((new capacity ttl : Cache α).afterAll before).Holds key value) :
    lastWritten? key before = some value := by
  induction before using List.reverseRecOn generalizing key value with
  | nil => exact absurd holds (not_holds_new capacity ttl)
  | append_singleton before event ih =>
    rw [afterAll, List.foldl_append] at holds
    rw [lastWritten?_snoc]
    rcases holds.of_after with written | ⟨silent, held⟩
    · rw [written, Option.some_or]
    · rw [silent, Option.none_or]
      exact ih held

/-- However a new cache was used, at whatever times: its look-ups are those that found something and
those that did not, of which some came upon an entry that was too old; its entries are those that were
brought in less those that were pushed out, too old, removed or dropped; and a look-up finds the value
that was written last. A malformed pattern changes nothing. -/
theorem accounts_balance [PatternLimit] (capacity ttl : Nat) (history : List (Nat × Step α)) :
    let cache : Cache α := (new capacity ttl).afterAll history
    let tally := (new capacity ttl : Cache α).tallyAll history
    cache.stats.hits = tally.found ∧
      cache.stats.hits + cache.stats.misses = tally.lookUps ∧
      cache.stats.expirations = tally.expired ∧
      cache.stats.expirations ≤ cache.stats.misses ∧
      (cache.entries.length : Int) = tally.added - cache.stats.evictions - cache.stats.expirations -
        tally.removed - tally.dropped ∧
      (∀ now key value, (cache.get now key).1 = some value → lastWritten? key history = some value) ∧
      ∀ now pattern, Pattern.parse? pattern = none → cache.invalidate? pattern = none ∧
        cache.after now (.invalidate pattern) = cache := by
  intro cache tally
  have accounts : Accounts tally (new capacity ttl) cache :=
    accounts_afterAll (tidy_new capacity ttl) history
  obtain ⟨hits, lookUps, expirations, missed, length⟩ := accounts
  simp only [new, CacheStats.zero, List.length_nil, Nat.zero_add] at hits lookUps expirations missed length
  refine ⟨hits, lookUps, expirations, by omega, by omega, ?_, ?_⟩
  · intro now key value found
    exact lastWritten?_of_holds capacity ttl (holds_of_get found)
  · intro now pattern malformed
    have refused : cache.invalidate? pattern = none := by rw [invalidate?, malformed, Option.map_none]
    exact ⟨refused, by rw [after, refused]; rfl⟩

/-- Entries are pushed out, found, found to be too old, removed, and dropped by a pattern and all at
once. One is left in the end, which was written twice. -/
theorem accounts_balance_every_way :
    let history : List (Nat × Step Nat) :=
      [(1, .set "a" 1), (1, .set "b" 2), (2, .get "a"), (2, .set "c" 3), (3, .get "b"), (20, .get "a"),
        (20, .set "d" 4), (4, .remove "c"), (5, .invalidate "^d"), (5, .set "e" 5),
        (5, .invalidate "("), (6, .clear), (7, .set "f" 6), (7, .set "f" 7)]
    let cache : Cache Nat := (new 2 10).afterAll history
    (new 2 10 : Cache Nat).tallyAll history = ⟨3, 1, 1, 6, 1, 2⟩ ∧ cache.stats = ⟨1, 2, 1, 1⟩ ∧
      (cache.entries.length : Int) = 6 - 1 - 1 - 1 - 2 ∧ lastWritten? "f" history = some 7 ∧
      cache.after 8 (.invalidate "(") = cache := by
  intro history cache
  obtain ⟨_, _, _, _, length, latest, refused⟩ := accounts_balance (α := Nat) 2 10 history
  have tallied : (new 2 10 : Cache Nat).tallyAll history = ⟨3, 1, 1, 6, 1, 2⟩ := by decide +kernel
  have counted : cache.stats = ⟨1, 2, 1, 1⟩ := by decide +kernel
  rw [tallied, show ((new 2 10 : Cache Nat).afterAll history).stats = ⟨1, 2, 1, 1⟩ from counted] at length
  have found : (cache.get 8 "f").1 = some 7 := by decide +kernel
  have malformed : Pattern.parse? "(" = none := by decide +kernel
  exact ⟨tallied, counted, length, latest 8 "f" 7 found, (refused 8 "(" malformed).2⟩

end CodeAtlas.Cache
