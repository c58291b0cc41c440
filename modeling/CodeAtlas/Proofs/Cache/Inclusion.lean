import CodeAtlas.Proofs.Cache.Lookup
import Mathlib.Data.List.Nodup

namespace CodeAtlas.Cache

variable {α : Type}

/-- The room of a cache is its capacity less the number of its entries. -/
structure Within (small large : Cache α) : Prop where
  ttl : small.ttl = large.ttl
  positive : 0 < small.capacity
  distinct : (large.entries.map (·.key)).Nodup
  entries : small.entries.Sublist large.entries
  room : small.capacity + large.entries.length ≤ large.capacity + small.entries.length

namespace Within

variable {small large : Cache α} {now : Nat} {key : String} {entry : CacheEntry α}

theorem find?_eq_some (within : Within small large) (found : small.find? key = some entry) :
    large.find? key = some entry := by
  obtain ⟨member, keyed⟩ := mem_of_find? found
  have inLarge : entry ∈ large.entries := within.entries.subset member
  cases other : large.find? key with
  | none => exact absurd keyed (find?_eq_none_iff.mp other entry inLarge)
  | some entry' =>
    obtain ⟨member', keyed'⟩ := mem_of_find? other
    have same : entry' = entry :=
      List.inj_on_of_nodup_map within.distinct member' inLarge (keyed'.trans keyed.symm)
    rw [same]

theorem find?_eq_none (within : Within small large) (absent : large.find? key = none) :
    small.find? key = none := by
  cases found : small.find? key with
  | none => rfl
  | some entry => rw [within.find?_eq_some found] at absent; cases absent

theorem isExpired_eq (within : Within small large) (entry : CacheEntry α) :
    large.isExpired now entry = small.isExpired now entry := by
  rw [isExpired, isExpired, within.ttl]

theorem live?_eq_some (within : Within small large) (live : small.live? now key = some entry) :
    large.live? now key = some entry := by
  obtain ⟨found, fresh⟩ := Option.filter_eq_some_iff.mp live
  refine Option.filter_eq_some_iff.mpr ⟨within.find?_eq_some found, ?_⟩
  rw [within.isExpired_eq]
  exact fresh

/-- An entry that only the larger cache finds has no counterpart in the smaller one. -/
theorem find?_eq_none_of_live? (within : Within small large) (missed : small.live? now key = none)
    (live : large.live? now key = some entry) : small.find? key = none := by
  obtain ⟨found, fresh⟩ := Option.filter_eq_some_iff.mp live
  cases held : small.find? key with
  | none => rfl
  | some entry' =>
    have same := within.find?_eq_some held
    rw [found] at same
    cases same
    rw [within.isExpired_eq] at fresh
    have finds : small.live? now key = some entry :=
      Option.filter_eq_some_iff.mpr ⟨held, fresh⟩
    rw [missed] at finds
    cases finds

/-- The larger cache drops at least as many entries as the smaller one. -/
theorem filter (within : Within small large) (p : CacheEntry α → Bool) :
    Within { small with entries := small.entries.filter p }
      { large with entries := large.entries.filter p } := by
  have dropped : small.entries.countP (fun entry => ¬p entry) ≤
      large.entries.countP (fun entry => ¬p entry) := within.entries.countP_le
  have ofSmall := small.entries.length_eq_countP_add_countP p
  have ofLarge := large.entries.length_eq_countP_add_countP p
  have room := within.room
  refine ⟨within.ttl, within.positive, within.distinct.sublist (List.filter_sublist.map _),
    within.entries.filter p, ?_⟩
  simp only [← List.countP_eq_length_filter]
  omega

theorem others (within : Within small large) (key : String) :
    Within { small with entries := small.others key }
      { large with entries := large.others key } :=
  within.filter (·.key != key)

theorem distinct_others (within : Within small large) (entry : CacheEntry α) :
    ((large.others entry.key ++ [entry]).map (·.key)).Nodup := by
  have absent : entry.key ∉ (large.others entry.key).map (·.key) := by
    simp [Cache.others]
  rw [← List.concat_eq_append, List.map_concat]
  exact (within.others entry.key).distinct.concat absent

/-- Both caches put the same entry at their ends. -/
theorem renew (within : Within small large) (entry : CacheEntry α) :
    Within { small with entries := small.others entry.key ++ [entry] }
      { large with entries := large.others entry.key ++ [entry] } := by
  have kept := within.others entry.key
  have room := kept.room
  refine ⟨within.ttl, within.positive, within.distinct_others entry,
    kept.entries.append (List.Sublist.refl _), ?_⟩
  simp only [List.length_append] at room ⊢
  omega

/-- Only the larger cache has the entry, and moves it to its end. -/
theorem renewLarge (within : Within small large) (entry : CacheEntry α) {old : CacheEntry α}
    (held : large.find? entry.key = some old) (absent : small.find? entry.key = none) :
    Within { small with entries := small.others entry.key }
      { large with entries := large.others entry.key ++ [entry] } := by
  have fewer := length_others_lt held
  have room := within.room
  refine ⟨within.ttl, within.positive, within.distinct_others entry,
    (within.others entry.key).entries.trans (List.sublist_append_left _ _), ?_⟩
  simp only [others_of_find?_none absent, List.length_append, List.length_singleton]
  omega

/-- Only the smaller cache pushes out its oldest entry. -/
theorem pushOutSmall (within : Within small large) (entry : CacheEntry α)
    (full : small.evicts entry.key = true) (free : large.evicts entry.key = false) :
    Within { small with entries := small.entries.tail ++ [entry] }
      { large with entries := large.others entry.key ++ [entry] } := by
  obtain ⟨absent, reached⟩ := evicts_iff.mp full
  have kept : small.entries.Sublist (large.others entry.key) := by
    have others := (within.others entry.key).entries
    rwa [others_of_find?_none absent] at others
  have positive := within.positive
  have room := within.room
  refine ⟨within.ttl, positive, within.distinct_others entry,
    ((List.tail_sublist _).trans kept).append (List.Sublist.refl _), ?_⟩
  simp only [List.length_append, List.length_tail, List.length_singleton]
  -- Either the entry takes the place of an older one, or the larger cache still had room.
  cases held : large.find? entry.key with
  | some old =>
    have fewer := length_others_lt held
    omega
  | none =>
    have unreached : ¬ large.capacity ≤ large.entries.length := by
      intro reached
      rw [evicts_iff.mpr ⟨held, reached⟩] at free
      cases free
    rw [others_of_find?_none held]
    omega

/-- A larger cache that is full has no more room than the smaller one. -/
theorem evicts (within : Within small large) (full : large.evicts key = true) :
    small.evicts key = true := by
  obtain ⟨absent, reached⟩ := evicts_iff.mp full
  have room := within.room
  exact evicts_iff.mpr ⟨within.find?_eq_none absent, by omega⟩

theorem pushOut (within : Within small large) (entry : CacheEntry α)
    (full : large.evicts entry.key = true) :
    Within { small with entries := small.entries.tail ++ [entry] }
      { large with entries := large.entries.tail ++ [entry] } := by
  obtain ⟨absent, _⟩ := evicts_iff.mp full
  obtain ⟨_, reached⟩ := evicts_iff.mp (within.evicts full)
  have positive := within.positive
  have room := within.room
  have shorter := within.entries.length_le
  refine ⟨within.ttl, positive, ?_, within.entries.tail.append (List.Sublist.refl _), ?_⟩
  · have distinct := within.distinct_others entry
    rw [others_of_find?_none absent] at distinct
    refine distinct.sublist (List.Sublist.map _ ?_)
    exact (List.tail_sublist _).append (List.Sublist.refl _)
  · simp only [List.length_append, List.length_tail, List.length_singleton]
    omega

/-- It does not matter what has happened to them. -/
theorem withPast (within : Within small large) (stats stats' : CacheStats)
    (overflowed overflowed' : Bool) :
    Within { small with stats, overflowed } { large with stats := stats', overflowed := overflowed' } :=
  ⟨within.ttl, within.positive, within.distinct, within.entries, within.room⟩

theorem set (within : Within small large) (now : Nat) (key : String) (value : α) :
    Within (small.set now key value) (large.set now key value) := by
  let entry : CacheEntry α := ⟨key, value, now, 0⟩
  have written : Within { small with entries := small.kept key ++ [entry] }
      { large with entries := large.kept key ++ [entry] } := by
    unfold kept
    cases full : large.evicts key with
    | true =>
      rw [within.evicts full]
      exact within.pushOut entry full
    | false =>
      cases full' : small.evicts key with
      | true => exact within.pushOutSmall entry full' full
      | false => exact within.renew entry
  rw [set_cache small, set_cache large]
  exact written.withPast _ _ _ _

theorem get (within : Within small large) (now : Nat) (key : String) :
    Within (small.get now key).2 (large.get now key).2 := by
  have looked :
      Within
        { small with
          entries := small.others key ++ ((small.live? now key).map (touch now)).toList }
        { large with
          entries := large.others key ++ ((large.live? now key).map (touch now)).toList } := by
    cases live : small.live? now key with
    | some entry =>
      obtain ⟨_, rfl⟩ := mem_of_live? live
      rw [within.live?_eq_some live]
      exact within.renew (touch now entry)
    | none =>
      cases live' : large.live? now key with
      | none => simpa using within.others key
      | some entry =>
        obtain ⟨_, rfl⟩ := mem_of_live? live'
        have held := (Option.filter_eq_some_iff.mp live').1
        have absent := within.find?_eq_none_of_live? live live'
        rw [Option.map_none, Option.toList_none, List.append_nil]
        exact within.renewLarge (touch now entry) held absent
  rw [get_cache small, get_cache large]
  exact looked.withPast _ _ _ _

theorem invalidate [PatternLimit] (within : Within small large) (pattern : String) :
    Within (((small.invalidate? pattern).map (·.2)).getD small)
      (((large.invalidate? pattern).map (·.2)).getD large) := by
  unfold invalidate?
  cases Pattern.parse? pattern with
  | none => exact within
  | some pattern => exact within.filter fun entry => !pattern.occursIn entry.key

theorem clear (within : Within small large) : Within small.clear.2 large.clear.2 := by
  have cleared := within.filter fun _ => false
  rwa [List.filter_false, List.filter_false] at cleared

theorem after [PatternLimit] (within : Within small large) (now : Nat) (step : Step α) :
    Within (small.after now step) (large.after now step) := by
  cases step with
  | set key value => exact within.set now key value
  | get key => exact within.get now key
  | contains key => exact within
  | remove key => exact within.others key
  | invalidate pattern => exact within.invalidate pattern
  | clear => exact within.clear

theorem afterAll [PatternLimit] (within : Within small large) (history : List (Nat × Step α)) :
    Within (small.afterAll history) (large.afterAll history) := by
  induction history generalizing small large with
  | nil => exact within
  | cons event history ih => exact ih (within.after event.1 event.2)

end Within

theorem within_new (ttl : Nat) {capacity larger : Nat} (le : capacity ≤ larger) :
    Within (new capacity ttl : Cache α) (new larger ttl) := by
  refine ⟨rfl, ?_, List.nodup_nil, List.Sublist.refl _, ?_⟩
  · change 0 < max capacity 1
    omega
  · change max capacity 1 + 0 ≤ max larger 1 + 0
    omega

/-- Of two caches that start empty, live equally long and are asked the same things at the same
times, the one of larger capacity holds all that the other one holds, in the same order, and finds
all that the other one finds. -/
theorem afterAll_sublist_of_le [PatternLimit] (ttl : Nat) {capacity larger : Nat} (le : capacity ≤ larger)
    (history : List (Nat × Step α)) :
    let small : Cache α := (new capacity ttl).afterAll history
    let large : Cache α := (new larger ttl).afterAll history
    small.entries.Sublist large.entries ∧
      ∀ now key value, (small.get now key).1 = some value → (large.get now key).1 = some value := by
  intro small large
  have within : Within small large := (within_new ttl le).afterAll history
  refine ⟨within.entries, fun now key value found => ?_⟩
  rw [get_value] at found ⊢
  obtain ⟨entry, live, rfl⟩ := Option.map_eq_some_iff.mp found
  rw [within.live?_eq_some live]
  rfl

/-- Only the larger cache still finds the first key, and moves it to its end. Then the clock goes
back, and the key that stood at the end of the smaller one is dropped. -/
theorem afterAll_sublist_of_le_two_three :
    let history : List (Nat × Step Nat) :=
      [(5, .set "a" 1), (5, .set "b" 2), (6, .set "c" 3), (9, .get "a"), (2, .remove "c"),
        (3, .set "d" 4), (3, .set "e" 5), (20, .get "b")]
    let small : Cache Nat := (new 2 10).afterAll history
    let large : Cache Nat := (new 3 10).afterAll history
    small.entries.map (·.key) = ["d", "e"] ∧ large.entries.map (·.key) = ["a", "d", "e"] ∧
      small.entries.Sublist large.entries ∧ (small.get 13 "d").1 = some 4 ∧
      (large.get 13 "d").1 = some 4 := by
  intro history small large
  obtain ⟨entries, finds⟩ := afterAll_sublist_of_le 10 (show 2 ≤ 3 by decide) history
  exact ⟨by decide, by decide, entries, by decide, finds 13 "d" 4 (by decide)⟩

end CodeAtlas.Cache
