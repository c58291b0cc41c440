import CodeAtlas.Proofs.Cache.Age

namespace CodeAtlas.Cache

open Json

variable {α : Type} {cache : Cache α} {value : Decoder α} {encode : α → Json} {depth now : Nat}
  {key : String}

/-- Whether the entry of a key has just reached the time to live. -/
def isAtLimit (cache : Cache α) (now : Nat) (key : String) : Bool :=
  (cache.find? key).any fun entry => now - entry.timestamp == cache.ttl

theorem contains_eq_isSome (cache : Cache α) (now : Nat) (key : String) :
    cache.contains now key = (cache.live? now key).isSome := by
  rw [contains, live?, Option.isSome_filter]

/-- What has just reached the time to live is still found. -/
theorem contains_of_isAtLimit (limit : cache.isAtLimit now key = true) :
    cache.contains now key = true := by
  obtain ⟨entry, held, age⟩ := (Option.any_eq_true _ _).mp limit
  refine (Option.any_eq_true _ _).mpr ⟨entry, held, ?_⟩
  simp [isExpired, beq_iff_eq.mp age]

theorem Origin.hasRoom (origin : Origin) (value : Decoder α) : (origin.cache value).HasRoom := by
  cases origin with
  | new capacity ttl => exact hasRoom_new capacity ttl
  | loaded capacity ttl now text =>
    change (load value capacity ttl now text).HasRoom
    unfold load
    split
    · exact hasRoom_new capacity ttl
    · exact List.foldlRecOn (motive := HasRoom) _ place (hasRoom_new capacity ttl)
        fun _ sofar entry _ => sofar.place entry

theorem HasRoom.afterAll (roomy : cache.HasRoom) (history : List (Nat × Step α)) :
    (cache.afterAll history).HasRoom :=
  List.foldlRecOn (motive := HasRoom) history _ roomy fun _ sofar event _ =>
    sofar.after event.1 event.2

theorem ttl_load (value : Decoder α) (capacity ttl now : Nat) (text : Option String) :
    (load value capacity ttl now text).ttl = ttl := by
  unfold load
  split
  · rfl
  · rw [restore, foldl_place_eq]
    rfl

/-- Where there is room for all, nothing is lost but what is too old. -/
theorem entries_load_save_of_hasRoom (shallow : depth + 3 ≤ maxDepth) (storable : Storable cache.entries)
    (roomy : cache.HasRoom)
    (back : ∀ entry ∈ cache.entries, ReadsAs value depth (encode entry.value) entry.value) (now : Nat) :
    (load value cache.capacity cache.ttl now (some (cache.save encode))).entries =
      cache.entries.filter fun entry => now - entry.timestamp < cache.ttl := by
  have young := storable.sublist
    (List.filter_sublist (p := fun entry => now - entry.timestamp < cache.ttl))
  have fits : (cache.entries.filter fun entry => now - entry.timestamp < cache.ttl).length ≤
      max cache.capacity 1 :=
    Nat.le_trans (List.length_filter_le ..) (Nat.le_trans roomy.fits (Nat.le_max_left ..))
  rw [load, Option.bind_some, decode?_save shallow storable.counted back]
  refine (foldl_place_entries [] (List.rtake_nil _).symm (by simp [new]) young.distinct).trans ?_
  change List.rtake _ (max cache.capacity 1) = _
  rw [List.nil_append, List.rtake, Nat.sub_eq_zero_of_le fits, List.drop_zero]

/-- Among entries with keys of their own, the one of a key is found if it is there and not left out. -/
theorem find?_filter_of_distinct {entries : List (CacheEntry α)}
    (distinct : (entries.map (·.key)).Nodup) (p : CacheEntry α → Bool) (key : String) :
    (entries.filter p).find? (·.key == key) = (entries.find? (·.key == key)).filter p := by
  induction entries with
  | nil => rfl
  | cons entry entries ih =>
    obtain ⟨fresh, distinct⟩ := List.nodup_cons.mp distinct
    by_cases keyed : entry.key = key
    · have others : (entries.filter p).find? (·.key == key) = none := by
        rw [List.find?_eq_none]
        intro other member same
        have shared : entry.key = other.key := keyed.trans (beq_iff_eq.mp same).symm
        exact fresh (List.mem_map.mpr ⟨other, List.mem_of_mem_filter member, shared.symm⟩)
      cases kept : p entry <;> simp [kept, keyed, others, Option.filter]
    · have skipped : (entry.key == key) = false := by simpa using keyed
      rw [List.find?_cons_of_neg (by simp [skipped]), ← ih distinct, List.filter_cons]
      split
      · exact List.find?_cons_of_neg (by simp [skipped])
      · rfl

/-- What a cache that is loaded again finds at once. -/
theorem live?_load_save (shallow : depth + 3 ≤ maxDepth) (storable : Storable cache.entries)
    (roomy : cache.HasRoom)
    (back : ∀ entry ∈ cache.entries, ReadsAs value depth (encode entry.value) entry.value) (now : Nat)
    (key : String) :
    (load value cache.capacity cache.ttl now (some (cache.save encode))).live? now key =
      if cache.isAtLimit now key then none else cache.live? now key := by
  unfold live? isExpired
  rw [ttl_load, find?, entries_load_save_of_hasRoom shallow storable roomy back,
    find?_filter_of_distinct storable.distinct, isAtLimit]
  change ((cache.find? key).filter _).filter _ = _
  cases cache.find? key with
  | none => rfl
  | some entry =>
    -- The entry is younger than the time to live, of just that age, or older.
    rcases Nat.lt_trichotomy (now - entry.timestamp) cache.ttl with younger | limit | older
    · simp [Option.filter, younger, Nat.ne_of_lt younger]
    · simp [Option.filter, limit]
    · simp [Option.filter, older, Nat.ne_of_gt older, Nat.not_lt_of_gt older]

/-- However a cache came about and whatever it was asked: if it is saved and loaded again with the same
capacity and the same time to live while the clock stands still, it finds the same values under the same
keys as before, except that an entry is lost whose age is just the time to live. That one is found
before and not after. -/
theorem contains_load_save (shallow : depth + 3 ≤ maxDepth) (origin : Origin)
    (history : List (Nat × Step α)) (counted : ∀ event ∈ history, event.1 < UInt64.size)
    (back : ∀ entry ∈ ((origin.cache value).afterAll history).entries,
      ReadsAs value depth (encode entry.value) entry.value)
    (now : Nat) (key : String) :
    let cache := (origin.cache value).afterAll history
    let loaded := load value cache.capacity cache.ttl now (some (cache.save encode))
    loaded.contains now key = (cache.contains now key && !cache.isAtLimit now key) ∧
      (loaded.get now key).1 =
        (if cache.isAtLimit now key then none else (cache.get now key).1) ∧
      ((cache.contains now key = true →
          loaded.contains now key = true ∧ (loaded.get now key).1 = (cache.get now key).1) ↔
        cache.isAtLimit now key = false) := by
  intro cache loaded
  have storable : Storable cache.entries := (origin.storable value).afterAll counted
  have roomy : cache.HasRoom := (origin.hasRoom value).afterAll history
  have live : loaded.live? now key = if cache.isAtLimit now key then none else cache.live? now key :=
    live?_load_save shallow storable roomy back now key
  have holds : loaded.contains now key = (cache.contains now key && !cache.isAtLimit now key) := by
    rw [contains_eq_isSome, contains_eq_isSome, live]
    cases cache.isAtLimit now key <;> simp
  have finds : (loaded.get now key).1 =
      if cache.isAtLimit now key then none else (cache.get now key).1 := by
    rw [get_value, get_value, live]
    cases cache.isAtLimit now key <;> rfl
  refine ⟨holds, finds, ?_, ?_⟩
  · intro stays
    by_contra limit
    have limit : cache.isAtLimit now key = true := by simpa using limit
    have still := (stays (contains_of_isAtLimit limit)).1
    rw [holds, limit, Bool.not_true, Bool.and_false] at still
    cases still
  · intro free held
    rw [holds, finds, free, held]
    exact ⟨rfl, rfl⟩

theorem readsAs_string (text : String) : ReadsAs Decoder.string 0 (Json.string text) text :=
  ⟨.string (some text), .string _, fun _ => rfl⟩

/-- Two entries are saved after ten milliseconds, which is how long they live. The one that was
written later is found again. -/
theorem contains_load_save_later :
    let history : List (Nat × Step String) := [(0, .set "a" "1"), (4, .set "b" "2")]
    let cache : Cache String := (Origin.new 4 10).cache Decoder.string |>.afterAll history
    let loaded := load Decoder.string cache.capacity cache.ttl 10 (some (cache.save Json.string))
    cache.contains 10 "a" = true ∧ cache.contains 10 "b" = true ∧
      loaded.contains 10 "a" = false ∧ loaded.contains 10 "b" = true ∧
      (loaded.get 10 "b").1 = some "2" := by
  intro history cache loaded
  have again (key : String) := contains_load_save (by decide) (.new 4 10) history (by decide)
    (fun entry _ => readsAs_string entry.value) 10 key
  obtain ⟨first, _⟩ := again "a"
  obtain ⟨second, found, _⟩ := again "b"
  exact ⟨by decide, by decide, first.trans (by decide), second.trans (by decide),
    found.trans (by decide)⟩

/-- An entry that is found is not found any more after the cache was saved and loaded again, though
the clock stood still. -/
theorem contains_load_save_lost :
    let cache : Cache String := (new 4 10).set 0 "a" "1"
    let loaded := load Decoder.string cache.capacity cache.ttl 10 (some (cache.save Json.string))
    (cache.contains 10 "a" = true ∧ (cache.get 10 "a").1 = some "1") ∧
      loaded.contains 10 "a" = false ∧ (loaded.get 10 "a").1 = none := by
  intro cache loaded
  have storable : Storable cache.entries := storable_nil.place ⟨by decide, by decide⟩
  have roomy : cache.HasRoom := (hasRoom_new 4 10).after 0 (.set "a" "1")
  have live : loaded.live? 10 "a" = none :=
    (live?_load_save (by decide) storable roomy (fun entry _ => readsAs_string entry.value) 10 "a").trans
      (by decide)
  rw [contains_eq_isSome loaded, get_value loaded, live]
  decide

end CodeAtlas.Cache
