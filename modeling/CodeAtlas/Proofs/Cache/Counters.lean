import CodeAtlas.Proofs.Cache.RoundTrip
import CodeAtlas.Proofs.Cache.Shelf

namespace CodeAtlas

open Json

/-- What can have been counted in so many steps. -/
structure CacheStats.CountedBy (steps : Nat) (stats : CacheStats) : Prop where
  lookUps : stats.hits + stats.misses ≤ steps
  evictions : stats.evictions ≤ steps
  expirations : stats.expirations ≤ stats.misses

namespace Cache

/-- The count of an entry is at most that of an entry which was loaded for its key, or nothing, and one
more for each of so many look-ups. -/
def CountedFrom {α : Type} (loaded : List (CacheEntry α)) (steps : Nat) (entry : CacheEntry α) :
    Prop :=
  ∃ base, entry.accessCount ≤ base + steps ∧
    (base = 0 ∨ ∃ origin ∈ loaded, origin.key = entry.key ∧ origin.accessCount = base)

variable {α : Type} {cache : Cache α} {now steps : Nat} {key : String} {entry : CacheEntry α}
  {loaded : List (CacheEntry α)} {value : Decoder α} {text : String}

/-- An entry that stands in a cache after a step stood there before, was just written, or was just
found. -/
theorem mem_after [PatternLimit] {step : Step α} (member : entry ∈ (cache.after now step).entries) :
    entry ∈ cache.entries ∨ (∃ key value, entry = ⟨key, value, now, 0⟩) ∨
      ∃ old ∈ cache.entries, entry = touch now old := by
  cases step with
  | set key value =>
    have member : entry ∈ cache.kept key ++ [⟨key, value, now, 0⟩] := member
    rcases List.mem_append.mp member with stays | written
    · exact .inl ((cache.kept_sublist key).subset stays)
    · exact .inr (.inl ⟨key, value, List.mem_singleton.mp written⟩)
  | get key =>
    have member : entry ∈ (cache.get now key).2.entries := member
    rw [get_cache] at member
    rcases List.mem_append.mp member with stays | found
    · exact .inl (List.mem_of_mem_filter stays)
    · obtain ⟨old, live, rfl⟩ := Option.map_eq_some_iff.mp (Option.mem_toList.mp found)
      exact .inr (.inr ⟨old, (mem_of_live? live).1, rfl⟩)
  | contains key => exact .inl member
  | remove key => exact .inl (List.mem_of_mem_filter member)
  | invalidate pattern =>
    have member : entry ∈ (((cache.invalidate? pattern).map (·.2)).getD cache).entries := member
    unfold invalidate? at member
    cases parsed : Pattern.parse? pattern with
    | none => exact .inl (by simpa [parsed] using member)
    | some pattern =>
      rw [parsed] at member
      exact .inl (List.mem_of_mem_filter member)
  | clear => exact absurd member List.not_mem_nil

namespace CountedFrom

theorem of_mem (member : entry ∈ loaded) : CountedFrom loaded 0 entry :=
  ⟨entry.accessCount, Nat.le_refl _, .inr ⟨entry, member, rfl, rfl⟩⟩

theorem next (counted : CountedFrom loaded steps entry) : CountedFrom loaded (steps + 1) entry := by
  obtain ⟨base, few, origin⟩ := counted
  exact ⟨base, Nat.le_succ_of_le few, origin⟩

theorem touch (counted : CountedFrom loaded steps entry) (now : Nat) :
    CountedFrom loaded (steps + 1) (touch now entry) := by
  obtain ⟨base, few, origin⟩ := counted
  exact ⟨base, Nat.le_trans (Nat.min_le_left ..) (Nat.succ_le_succ few), origin⟩

theorem after [PatternLimit] (counted : ∀ entry ∈ cache.entries, CountedFrom loaded steps entry) (now : Nat)
    (step : Step α) : ∀ entry ∈ (cache.after now step).entries,
      CountedFrom loaded (steps + 1) entry := by
  intro entry member
  rcases mem_after member with stays | ⟨key, value, rfl⟩ | ⟨old, held, rfl⟩
  · exact (counted entry stays).next
  · exact ⟨0, Nat.zero_le _, .inl rfl⟩
  · exact (counted old held).touch now

theorem afterAll [PatternLimit] (counted : ∀ entry ∈ cache.entries, CountedFrom loaded steps entry)
    (history : List (Nat × Step α)) : ∀ entry ∈ (cache.afterAll history).entries,
      CountedFrom loaded (steps + history.length) entry := by
  induction history generalizing cache steps with
  | nil => exact counted
  | cons event history ih =>
    have later := ih (after counted event.1 event.2)
    rwa [Nat.add_right_comm] at later

/-- Where what was loaded leaves room, no count gets to the largest one. -/
theorem accessCount_lt (counted : CountedFrom loaded steps entry)
    (room : ∀ origin ∈ loaded, origin.key = entry.key → origin.accessCount + steps < fullCount)
    (short : steps < fullCount) : entry.accessCount < fullCount := by
  obtain ⟨base, few, rfl | ⟨origin, member, keyed, rfl⟩⟩ := counted
  · omega
  · have left := room origin member keyed
    omega

end CountedFrom

theorem countedBy_after [PatternLimit] (counted : cache.stats.CountedBy steps) (now : Nat) (step : Step α) :
    (cache.after now step).stats.CountedBy (steps + 1) := by
  obtain ⟨lookUps, evictions, expirations⟩ := counted
  have same : cache.stats.CountedBy (steps + 1) :=
    ⟨Nat.le_succ_of_le lookUps, Nat.le_succ_of_le evictions, expirations⟩
  cases step with
  | set key value =>
    change CacheStats.CountedBy _ (if cache.evicts key then _ else _)
    split
    · exact ⟨same.lookUps, Nat.succ_le_succ evictions, expirations⟩
    · exact same
  | get key =>
    change (cache.get now key).2.stats.CountedBy (steps + 1)
    cases found : cache.find? key with
    | none =>
      rw [get_of_absent found]
      exact ⟨Nat.succ_le_succ lookUps, same.evictions, Nat.le_succ_of_le expirations⟩
    | some entry =>
      cases expired : cache.isExpired now entry with
      | true =>
        rw [get_of_expired found expired]
        exact ⟨Nat.succ_le_succ lookUps, same.evictions, Nat.succ_le_succ expirations⟩
      | false =>
        rw [get_of_live found expired]
        refine ⟨?_, same.evictions, expirations⟩
        change cache.stats.hits + 1 + cache.stats.misses ≤ steps + 1
        omega
  | contains key => exact same
  | remove key => exact same
  | invalidate pattern =>
    change (((cache.invalidate? pattern).map (·.2)).getD cache).stats.CountedBy (steps + 1)
    unfold invalidate?
    cases Pattern.parse? pattern <;> exact same
  | clear => exact same

theorem countedBy_afterAll [PatternLimit] (counted : cache.stats.CountedBy steps)
    (history : List (Nat × Step α)) :
    (cache.afterAll history).stats.CountedBy (steps + history.length) := by
  induction history generalizing cache steps with
  | nil => exact counted
  | cons event history ih =>
    have later := ih (countedBy_after counted event.1 event.2)
    rwa [Nat.add_right_comm] at later

section Load

variable (accepted : decode? (entriesDecoder value) text = some loaded)
include accepted

theorem countedFrom_load (capacity ttl start : Nat) :
    ∀ entry ∈ (load value capacity ttl start (some text)).entries, CountedFrom loaded 0 entry := by
  rw [load, Option.bind_some, accepted]
  refine List.foldlRecOn (motive := fun cache : Cache α =>
    ∀ entry ∈ cache.entries, CountedFrom loaded 0 entry) _ place (by simp [new]) ?_
  intro cache sofar origin young entry member
  have young := List.mem_of_mem_filter young
  have member : entry ∈ cache.kept origin.key ++ [origin] := member
  rcases List.mem_append.mp member with stays | placed
  · exact sofar entry ((cache.kept_sublist _).subset stays)
  · obtain rfl := List.mem_singleton.mp placed
    exact .of_mem young

theorem countedBy_load (capacity ttl start : Nat) :
    (load value capacity ttl start (some text)).stats.CountedBy 0 := by
  rw [load, Option.bind_some, accepted]
  change ((loaded.filter _).foldl place (new capacity ttl)).stats.CountedBy 0
  rw [foldl_place_eq]
  exact ⟨Nat.le_refl 0, Nat.le_refl 0, Nat.le_refl 0⟩

end Load

section Abort

/-- A step, unless the program aborts at it. -/
def after? [PatternLimit] (cache : Cache α) (now : Nat) (step : Step α) : Option (Cache α) :=
  let next := cache.after now step
  if next.overflowed then none else some next

/-- Steps up to the last, unless the program aborts at one of them. -/
def afterAll? [PatternLimit] (cache : Cache α) (history : List (Nat × Step α)) : Option (Cache α) :=
  history.foldlM (fun cache event => cache.after? event.1 event.2) cache

/-- A look-up finds an entry with the largest count. -/
def FindsFull (cache : Cache α) (now : Nat) (key : String) : Prop :=
  ∃ entry, cache.find? key = some entry ∧ cache.isExpired now entry = false ∧
    fullCount ≤ entry.accessCount

variable {after : Cache α} {history : List (Nat × Step α)} {step : Step α}
  (running : cache.overflowed = false)

include running

theorem overflowed_get_iff : (cache.get now key).2.overflowed = true ↔ cache.FindsFull now key := by
  unfold FindsFull
  cases found : cache.find? key with
  | none => simp [get_of_absent found, running]
  | some entry =>
    cases expired : cache.isExpired now entry with
    | true => simp [get_of_expired found expired, running, expired]
    | false => simp [get_of_live found expired, running, expired]

theorem get?_eq_none_iff : cache.get? now key = none ↔ cache.FindsFull now key := by
  rw [get?, ← overflowed_get_iff running]
  simp

omit running in
theorem of_get? {looked : Option α × Cache α} (goes : cache.get? now key = some looked) :
    looked = cache.get now key := by
  unfold get? at goes
  dsimp only at goes
  split at goes
  · cases goes
  · exact (Option.some.inj goes).symm

/-- Only look-ups count entries. -/
theorem after?_eq_none_iff [PatternLimit] :
    cache.after? now step = none ↔ ∃ key, step = .get key ∧ cache.FindsFull now key := by
  have aborts : cache.after? now step = none ↔ (cache.after now step).overflowed = true := by
    simp [after?]
  rw [aborts]
  cases step with
  | get key =>
    rw [show (cache.after now (.get key)).overflowed = (cache.get now key).2.overflowed from rfl,
      overflowed_get_iff running]
    simp
  | invalidate pattern =>
    have same : (((cache.invalidate? pattern).map (·.2)).getD cache).overflowed = cache.overflowed := by
      unfold invalidate?
      cases Pattern.parse? pattern <;> rfl
    simp [Cache.after, same, running]
  | set | contains | remove | clear => simp [Cache.after, Cache.set, place, remove, clear, running]

omit running in
theorem of_after? [PatternLimit] (goes : cache.after? now step = some after) :
    after = cache.after now step ∧ after.overflowed = false := by
  unfold after? at goes
  dsimp only at goes
  split at goes
  · cases goes
  · next runs =>
    obtain rfl := Option.some.inj goes
    exact ⟨rfl, Bool.eq_false_iff.mpr runs⟩

theorem of_afterAll? [PatternLimit] (goes : cache.afterAll? history = some after) :
    after = cache.afterAll history ∧ after.overflowed = false := by
  induction history generalizing cache with
  | nil =>
    obtain rfl := Option.some.inj goes
    exact ⟨rfl, running⟩
  | cons event history ih =>
    obtain ⟨next, first, rest⟩ := Option.bind_eq_some_iff.mp goes
    obtain ⟨rfl, runs⟩ := of_after? first
    exact ih runs rest

/-- The program aborts at the first look-up that finds an entry with the largest count. -/
theorem afterAll?_eq_none_iff [PatternLimit] :
    cache.afterAll? history = none ↔
      ∃ before now key rest reached, history = before ++ (now, .get key) :: rest ∧
        cache.afterAll? before = some reached ∧ reached.FindsFull now key := by
  induction history generalizing cache with
  | nil => exact iff_of_false (fun goes => nomatch goes) (by simp)
  | cons event history ih =>
    have split : cache.afterAll? (event :: history) =
        (cache.after? event.1 event.2).bind (·.afterAll? history) := rfl
    cases first : cache.after? event.1 event.2 with
    | none =>
      obtain ⟨now, step⟩ := event
      obtain ⟨key, rfl, finds⟩ := (after?_eq_none_iff running).mp first
      exact iff_of_true (by rw [split, first]; rfl) ⟨[], now, key, history, cache, rfl, rfl, finds⟩
    | some next =>
      rw [split, first, Option.bind_some, ih (of_after? first).2]
      constructor
      · rintro ⟨before, now, key, rest, reached, rfl, goes, finds⟩
        exact ⟨event :: before, now, key, rest, reached, rfl,
          Option.bind_eq_some_iff.mpr ⟨next, first, goes⟩, finds⟩
      · rintro ⟨before, now, key, rest, reached, same, goes, finds⟩
        cases before with
        | nil =>
          obtain ⟨rfl, rfl⟩ := List.cons.inj same
          obtain rfl := Option.some.inj goes
          cases first.symm.trans ((after?_eq_none_iff running).mpr ⟨key, rfl, finds⟩)
        | cons event' before =>
          obtain ⟨rfl, rfl⟩ := List.cons.inj same
          obtain ⟨other, first', goes⟩ := Option.bind_eq_some_iff.mp goes
          obtain rfl := Option.some.inj (first.symm.trans first')
          exact ⟨before, now, key, rest, reached, rfl, goes, finds⟩

end Abort

theorem overflowed_load (capacity ttl start : Nat) (text : Option String) :
    (load value capacity ttl start text).overflowed = false := by
  unfold load
  split
  · rfl
  · rw [restore, foldl_place_eq]
    rfl

theorem find?_get_of_live (found : cache.find? key = some entry)
    (live : cache.isExpired now entry = false) :
    (cache.get now key).2.find? key = some (touch now entry) := by
  have again := live?_get_self cache now key
  rw [live?, live?, found, Option.filter_some, live] at again
  exact (Option.filter_eq_some_iff.mp again).1

/-- A look-up that finds an entry leaves it with one more on its count, unless the program aborts. -/
theorem accessCount_of_get? (running : cache.overflowed = false)
    (found : cache.find? key = some entry) (live : cache.isExpired now entry = false)
    {answer : Option α} {after : Cache α} (looked : cache.get? now key = some (answer, after)) :
    answer = some entry.value ∧ ∃ left, after.find? key = some left ∧ left.timestamp = now ∧
      left.accessCount = entry.accessCount + 1 := by
  have less : ¬fullCount ≤ entry.accessCount := fun full => by
    rw [(get?_eq_none_iff running).mpr ⟨entry, found, live, full⟩] at looked
    cases looked
  have same := of_get? looked
  have left := find?_get_of_live found live
  rw [get_of_live found live] at same left
  obtain ⟨rfl, rfl⟩ := Prod.mk.inj same
  exact ⟨rfl, touch now entry, left, rfl, Nat.min_eq_left (Nat.lt_of_not_le less)⟩

/-- A key is not found with the largest count if those that were loaded for it leave room. -/
theorem not_findsFull_afterAll [PatternLimit]
    (accepted : decode? (entriesDecoder value) text = some loaded) (capacity ttl start : Nat)
    {history : List (Nat × Step α)} (short : history.length < 2 ^ 63)
    (room : ∀ origin ∈ loaded, origin.key = key → origin.accessCount < 2 ^ 63) :
    ¬((load value capacity ttl start (some text)).afterAll history).FindsFull now key := by
  rintro ⟨entry, found, _, full⟩
  obtain ⟨member, rfl⟩ := mem_of_find? found
  have counted :=
    CountedFrom.afterAll (countedFrom_load accepted capacity ttl start) history entry member
  rw [Nat.zero_add] at counted
  refine absurd full (Nat.not_le_of_lt (counted.accessCount_lt (fun origin listed same => ?_) ?_))
  · have less := room origin listed same
    simp only [fullCount, UInt64.size]
    omega
  · simp only [fullCount, UInt64.size]
    omega

/-- However large the times and counts are that a cache is loaded with, and whatever it is asked in
fewer than `2 ^ 63` steps, at whatever times of 64 bits: wherever it gets to, all times and counts are
below `2 ^ 64`, and what the cache counts of itself is below `2 ^ 63`. A look-up that finds an entry
leaves it with one more on its count, unless that is the largest count; there the program aborts, and
nowhere else. This does not happen to a key for which every count that was loaded is less than
`2 ^ 63`. -/
theorem hit_counts_iff [PatternLimit] (accepted : decode? (entriesDecoder value) text = some loaded)
    (capacity ttl start : Nat) {history : List (Nat × Step α)}
    (clock : ∀ event ∈ history, event.1 < UInt64.size) (short : history.length < 2 ^ 63) :
    let first := load value capacity ttl start (some text)
    (∀ cache, first.afterAll? history = some cache →
      (∀ entry ∈ cache.entries, entry.Counted) ∧ cache.stats.CountedBy history.length ∧
        ∀ now key, (cache.get? now key = none ↔ cache.FindsFull now key) ∧
          (∀ found after entry, cache.get? now key = some (found, after) →
            cache.find? key = some entry → cache.isExpired now entry = false →
            found = some entry.value ∧ ∃ left, after.find? key = some left ∧ left.timestamp = now ∧
              left.accessCount = entry.accessCount + 1) ∧
          ((∀ origin ∈ loaded, origin.key = key → origin.accessCount < 2 ^ 63) →
            ¬cache.FindsFull now key)) ∧
      (first.afterAll? history = none ↔
        ∃ before now key rest cache, history = before ++ (now, .get key) :: rest ∧
          first.afterAll? before = some cache ∧ cache.FindsFull now key) ∧
      ((∀ origin ∈ loaded, origin.accessCount < 2 ^ 63) →
        ∃ cache, first.afterAll? history = some cache) := by
  intro first
  have starts : first.overflowed = false := overflowed_load capacity ttl start (some text)
  refine ⟨fun cache goes => ?_, afterAll?_eq_none_iff starts, fun room => ?_⟩
  · obtain ⟨rfl, running⟩ := of_afterAll? starts goes
    have storable : Storable (first.afterAll history).entries :=
      ((Origin.loaded capacity ttl start (some text)).storable value).afterAll clock
    have stats := countedBy_afterAll (countedBy_load accepted capacity ttl start) history
    rw [Nat.zero_add] at stats
    exact ⟨storable.counted, stats, fun now key => ⟨get?_eq_none_iff running,
      fun found after entry looked held live => accessCount_of_get? running held live looked,
      not_findsFull_afterAll accepted capacity ttl start short⟩⟩
  · by_contra aborts
    obtain ⟨before, now, key, rest, cache, rfl, goes, finds⟩ :=
      (afterAll?_eq_none_iff starts).mp (Option.eq_none_iff_forall_ne_some.mpr fun cache goes =>
        aborts ⟨cache, goes⟩)
    obtain ⟨rfl, _⟩ := of_afterAll? starts goes
    rw [List.length_append] at short
    exact not_findsFull_afterAll accepted capacity ttl start (by omega)
      (fun origin listed _ => room origin listed) finds

/-- The entries of two keys. The first one has the largest count and the second one the largest time. -/
def fullText : String :=
  "\x7b\"entries\":[\x7b\"key\":\"a\",\"value\":\"1\",\"timestamp\":7," ++
    "\"access_count\":18446744073709551615\x7d,\x7b\"key\":\"b\",\"value\":\"2\"," ++
    "\"timestamp\":18446744073709551615,\"access_count\":5\x7d]\x7d"

theorem decode?_fullText : decode? (entriesDecoder Decoder.string) fullText =
    some [⟨"a", "1", 7, fullCount⟩, ⟨"b", "2", fullCount, 5⟩] := by
  decide +kernel

/-- Both entries are young at time 8, since the second one comes from the future. -/
theorem load_fullText : load Decoder.string 4 10 8 (some fullText) =
    ⟨4, 10, [⟨"a", "1", 7, fullCount⟩, ⟨"b", "2", fullCount, 5⟩], .zero, false⟩ := by
  rw [load, Option.bind_some, decode?_fullText]
  decide +kernel

/-- An entry that comes from the future is found, and is counted once more when it is found again. -/
theorem hit_counts_iff_future :
    let history : List (Nat × Step String) := [(9, .set "c" "3"), (8, .get "b")]
    ∃ cache, (load Decoder.string 4 10 8 (some fullText)).afterAll? history = some cache ∧
      cache.find? "b" = some ⟨"b", "2", 8, 6⟩ ∧ cache.stats = ⟨1, 0, 0, 0⟩ ∧
      ∃ after left, cache.get? 10 "b" = some (some "2", after) ∧ after.find? "b" = some left ∧
        left.accessCount = 6 + 1 := by
  intro history
  have clock : ∀ event ∈ history, event.1 < UInt64.size := by decide
  obtain ⟨held, _⟩ := hit_counts_iff decode?_fullText 4 10 8 clock (by decide)
  rw [load_fullText] at held ⊢
  obtain ⟨cache, goes⟩ : ∃ cache, afterAll? (α := String)
      ⟨4, 10, [⟨"a", "1", 7, fullCount⟩, ⟨"b", "2", fullCount, 5⟩], .zero, false⟩ history =
        some cache :=
    Option.isSome_iff_exists.mp (by decide +kernel)
  obtain ⟨told, _⟩ := of_afterAll? rfl goes
  have found : cache.find? "b" = some ⟨"b", "2", 8, 6⟩ := by
    rw [told]
    decide +kernel
  have stats : cache.stats = ⟨1, 0, 0, 0⟩ := by
    rw [told]
    decide +kernel
  have live : cache.isExpired 10 ⟨"b", "2", 8, 6⟩ = false := by
    rw [told]
    decide +kernel
  obtain ⟨aborts, counts, room⟩ := (held cache goes).2.2 10 "b"
  obtain ⟨⟨value, after⟩, looked⟩ :=
    Option.ne_none_iff_exists'.mp (mt aborts.mp (room (by decide)))
  obtain ⟨rfl, left, stays, _, more⟩ := counts value after _ looked found live
  exact ⟨cache, goes, found, stats, after, left, looked, stays, more⟩

/-- The program aborts at a look-up that finds an entry with the largest count. -/
theorem hit_counts_aborts :
    let cache := load Decoder.string 4 10 8 (some fullText)
    cache.find? "a" = some ⟨"a", "1", 7, fullCount⟩ ∧ cache.contains 8 "a" = true ∧
      cache.get? 8 "a" = none := by
  rw [load_fullText]
  decide +kernel

end Cache

end CodeAtlas
