import CodeAtlas.Cache.Snapshot
import CodeAtlas.Proofs.Cache.Lookup
import CodeAtlas.Proofs.Json.RoundTrip
import Mathlib.Data.List.DropRight
import Mathlib.Data.List.Nodup

namespace CodeAtlas

open Json

/-- Times and counts have 64 bits. -/
def CacheEntry.Counted {α : Type} (entry : CacheEntry α) : Prop :=
  entry.timestamp < UInt64.size ∧ entry.accessCount < UInt64.size

namespace Cache

/-- How the life of a cache begins. -/
inductive Origin where
  | new (capacity ttl : Nat)
  | loaded (capacity ttl now : Nat) (text : Option String)

def Origin.cache {α : Type} (value : Decoder α) : Origin → Cache α
  | new capacity ttl => .new capacity ttl
  | loaded capacity ttl now text => .load value capacity ttl now text

variable {α : Type} {cache : Cache α} {entry : CacheEntry α} {entries taken : List (CacheEntry α)}
  {value : Decoder α} {encode : α → Json} {depth : Nat}

/-- No two entries share a key, and all are counted. -/
structure Storable (entries : List (CacheEntry α)) : Prop where
  distinct : (entries.map (·.key)).Nodup
  counted : ∀ entry ∈ entries, entry.Counted

theorem storable_nil : Storable ([] : List (CacheEntry α)) := ⟨List.nodup_nil, by simp⟩

namespace Storable

theorem sublist {others : List (CacheEntry α)} (storable : Storable entries)
    (fewer : others.Sublist entries) : Storable others :=
  ⟨storable.distinct.sublist (fewer.map _), fun entry member =>
    storable.counted entry (fewer.subset member)⟩

theorem snoc (storable : Storable entries) (fresh : entry.key ∉ entries.map (·.key))
    (counted : entry.Counted) : Storable (entries ++ [entry]) := by
  constructor
  · rw [← List.concat_eq_append, List.map_concat]
    exact storable.distinct.concat fresh
  · simpa [or_imp, forall_and] using ⟨storable.counted, counted⟩

theorem others (storable : Storable cache.entries) (key : String) : Storable (cache.others key) :=
  storable.sublist List.filter_sublist

end Storable

theorem key_not_mem_others (cache : Cache α) (key : String) :
    key ∉ (cache.others key).map (·.key) := by
  simp [others]

theorem kept_sublist (cache : Cache α) (key : String) : (cache.kept key).Sublist cache.entries := by
  unfold kept
  split
  · exact List.tail_sublist _
  · exact List.filter_sublist

theorem key_not_mem_kept (cache : Cache α) (key : String) : key ∉ (cache.kept key).map (·.key) := by
  unfold kept
  split
  · next full =>
    have absent := find?_eq_none_iff.mp (evicts_iff.mp full).1
    rintro member
    obtain ⟨entry, held, keyed⟩ := List.mem_map.mp member
    exact absent entry (List.mem_of_mem_tail held) keyed
  · exact cache.key_not_mem_others key

theorem Storable.place (storable : Storable cache.entries) (counted : entry.Counted) :
    Storable (cache.place entry).entries :=
  (storable.sublist (cache.kept_sublist entry.key)).snoc (cache.key_not_mem_kept entry.key) counted

theorem Storable.foldl_place {young : List (CacheEntry α)} (storable : Storable cache.entries)
    (counted : ∀ entry ∈ young, entry.Counted) : Storable (young.foldl Cache.place cache).entries :=
  List.foldlRecOn (motive := fun cache : Cache α => Storable cache.entries) young Cache.place storable
    fun _ sofar entry member => sofar.place (counted entry member)

theorem Storable.after [PatternLimit] (storable : Storable cache.entries) {now : Nat}
    (counted : now < UInt64.size) (step : Step α) : Storable (cache.after now step).entries := by
  cases step with
  | set key value => exact storable.place ⟨counted, Nat.zero_lt_of_lt counted⟩
  | get key =>
    change Storable (cache.get now key).2.entries
    rw [get_cache]
    have others := storable.others key
    cases live : cache.live? now key with
    | none => simpa using others
    | some entry =>
      refine others.snoc ?_ ⟨counted, Nat.lt_of_le_of_lt (Nat.min_le_right ..) (by decide)⟩
      obtain ⟨_, rfl⟩ := mem_of_live? live
      exact cache.key_not_mem_others entry.key
  | contains key => exact storable
  | remove key => exact storable.others key
  | invalidate pattern =>
    change Storable (((cache.invalidate? pattern).map (·.2)).getD cache).entries
    unfold invalidate?
    cases Pattern.parse? pattern with
    | none => exact storable
    | some pattern => exact storable.sublist List.filter_sublist
  | clear => exact storable_nil

theorem Storable.afterAll [PatternLimit] (storable : Storable cache.entries) {history : List (Nat × Step α)}
    (counted : ∀ event ∈ history, event.1 < UInt64.size) :
    Storable (cache.afterAll history).entries :=
  List.foldlRecOn (motive := fun cache : Cache α => Storable cache.entries) history _ storable
    fun _ sofar event member => sofar.after (counted event member) event.2

theorem counted_of_entryDecoder {document : Document}
    (read : entryDecoder value depth document = some entry) : entry.Counted := by
  cases depth with
  | zero => cases read
  | succ depth =>
    obtain ⟨fields, _, built⟩ := Option.bind_eq_some_iff.mp read
    dsimp only at built
    split at built
    · simp only [Decoder.required, Option.bind_eq_bind, Option.bind_eq_some_iff, Option.pure_def,
        Option.some.injEq] at built
      obtain ⟨_, _, _, _, _, ⟨_, _, timed⟩, _, ⟨_, _, found⟩, rfl⟩ := built
      exact ⟨Decoder.natural_lt timed, Decoder.natural_lt found⟩
    · cases built

theorem counted_of_decode? {text : String}
    (read : decode? (entriesDecoder value) text = some entries) :
    ∀ entry ∈ entries, entry.Counted := by
  obtain ⟨document, _, read⟩ := Option.bind_eq_some_iff.mp read
  obtain ⟨fields, _, built⟩ := Option.bind_eq_some_iff.mp read
  dsimp only at built
  split at built
  · obtain ⟨document, _, listed⟩ := Option.bind_eq_some_iff.mp built
    unfold Decoder.list at listed
    split at listed
    · intro entry member
      obtain ⟨_, _, read⟩ := exists_of_mem_mapM listed member
      exact counted_of_entryDecoder read
    · cases listed
  · cases built

theorem Origin.storable (origin : Origin) (value : Decoder α) :
    Storable (origin.cache value).entries := by
  cases origin with
  | new capacity ttl => exact storable_nil
  | loaded capacity ttl now text =>
    change Storable (load value capacity ttl now text).entries
    unfold load
    split
    · exact storable_nil
    · next entries read =>
      obtain ⟨text, _, read⟩ := Option.bind_eq_some_iff.mp read
      refine Storable.foldl_place storable_nil fun entry member => ?_
      exact counted_of_decode? read entry (List.mem_of_mem_filter member)

/-- An entry as it is read, whose value is read from a document of its own. -/
def entryDocument (entry : CacheEntry α) (value : Document) : Document :=
  .ofMembers [("key", .string (some entry.key)), ("value", value),
    ("timestamp", .number (naturalLiteral entry.timestamp)),
    ("access_count", .number (naturalLiteral entry.accessCount))]

theorem spells_entryDocument {document : Document} (spells : Spells (encode entry.value) document) :
    Spells (encodeEntry encode entry) (entryDocument entry document) :=
  .object (.cons _ (.string _) (.cons _ spells (.cons _ (.number (reads_natural _))
    (.cons _ (.number (reads_natural _)) .nil))))

theorem entryDecoder_document (entry : CacheEntry α) (document : Document) :
    entryDecoder value (depth + 1) (entryDocument entry document) = do
      let found ← value depth document
      let timestamp ← Decoder.natural depth (.number (naturalLiteral entry.timestamp))
      let accessCount ← Decoder.natural depth (.number (naturalLiteral entry.accessCount))
      return ⟨entry.key, found, timestamp, accessCount⟩ := by
  rw [entryDecoder, Decoder.record, entryDocument, Decoder.fields?_ofMembers _ (by simp)]
  simp [lookup_cons_eq_ite, Decoder.required, Decoder.string]

theorem entryDecoder_entryDocument {document : Document}
    (read : value depth document = some entry.value) :
    entryDecoder value (depth + 1) (entryDocument entry document) = do
      let timestamp ← Decoder.natural depth (.number (naturalLiteral entry.timestamp))
      let accessCount ← Decoder.natural depth (.number (naturalLiteral entry.accessCount))
      return { entry with timestamp, accessCount } := by
  rw [entryDecoder_document, read]
  rfl

theorem readsAs_entry (counted : entry.Counted)
    (back : ReadsAs value depth (encode entry.value) entry.value) :
    ReadsAs (entryDecoder value) (depth + 1) (encodeEntry encode entry) entry := by
  obtain ⟨document, spells, read⟩ := back
  refine ⟨entryDocument entry document, spells_entryDocument spells, fun more => ?_⟩
  rw [← Nat.add_assoc, entryDecoder_entryDocument (read more), Decoder.natural_literal counted.1,
    Decoder.natural_literal counted.2]
  rfl

theorem decode?_save (shallow : depth + 3 ≤ maxDepth)
    (counted : ∀ entry ∈ cache.entries, entry.Counted)
    (back : ∀ entry ∈ cache.entries, ReadsAs value depth (encode entry.value) entry.value) :
    decode? (entriesDecoder value) (cache.save encode) = some cache.entries := by
  obtain ⟨documents, spells, read⟩ := readsAs_list fun entry member =>
    readsAs_entry (counted entry member) (back entry member)
  have snapshot : ReadsAs (entriesDecoder value) (depth + 3)
      (.object [("entries", .array (cache.entries.map (encodeEntry encode)))]) cache.entries := by
    refine ⟨.ofMembers [("entries", documents)], .object (.cons _ spells .nil), fun more => ?_⟩
    rw [entriesDecoder, ← Nat.add_assoc, Decoder.record, Decoder.fields?_ofMembers _ (by simp)]
    simpa [lookup_cons_eq_ite, Decoder.required, Nat.add_assoc] using read more
  exact snapshot.decode? shallow

/-- A cache that holds the last of what it was given still does so when it is given one more. -/
theorem place_entries (holds : cache.entries = taken.rtake cache.capacity)
    (room : 0 < cache.capacity) (fresh : entry.key ∉ taken.map (·.key)) :
    (cache.place entry).entries = (taken ++ [entry]).rtake cache.capacity := by
  have absent : cache.find? entry.key = none := by
    rw [find?_eq_none_iff, holds]
    intro other member keyed
    exact fresh (List.mem_map.mpr ⟨other, List.mem_of_mem_drop member, keyed⟩)
  obtain ⟨less, more⟩ : ∃ less, cache.capacity = less + 1 := Nat.exists_eq_add_one.mpr room
  have stays : cache.kept entry.key = taken.rtake less := by
    unfold kept
    split
    · next full =>
      have reached := (evicts_iff.mp full).2
      rw [holds, List.rtake, List.length_drop] at reached
      rw [holds, List.rtake, List.rtake, List.tail_drop]
      congr 1
      omega
    · next free =>
      have unreached : ¬ cache.capacity ≤ cache.entries.length := fun reached =>
        free (evicts_iff.mpr ⟨absent, reached⟩)
      rw [holds, List.rtake, List.length_drop] at unreached
      rw [others_of_find?_none absent, holds, List.rtake, List.rtake]
      congr 1
      omega
  rw [more, List.rtake_concat_succ, ← stays]
  rfl

theorem foldl_place_entries {young : List (CacheEntry α)} (taken : List (CacheEntry α))
    (holds : cache.entries = taken.rtake cache.capacity) (room : 0 < cache.capacity)
    (distinct : ((taken ++ young).map (·.key)).Nodup) :
    (young.foldl place cache).entries = (taken ++ young).rtake cache.capacity := by
  induction young generalizing cache taken with
  | nil => rw [List.append_nil]; exact holds
  | cons entry young ih =>
    have fresh : entry.key ∉ taken.map (·.key) := by
      intro member
      rw [List.map_append, List.map_cons, List.nodup_append] at distinct
      exact distinct.2.2 _ member _ List.mem_cons_self rfl
    rw [List.append_cons] at distinct ⊢
    exact ih _ (place_entries holds room fresh) room distinct

/-- However a cache came about and whatever it was asked, its text is loaded as the last of its
entries that are younger than the new time to live, in the same order and as they were, as many as
there is room for. -/
theorem entries_load_save [PatternLimit] {value : Decoder α} {encode : α → Json} {depth : Nat}
    (shallow : depth + 3 ≤ maxDepth) (origin : Origin) (history : List (Nat × Step α))
    (counted : ∀ event ∈ history, event.1 < UInt64.size)
    (back : ∀ entry ∈ ((origin.cache value).afterAll history).entries,
      ReadsAs value depth (encode entry.value) entry.value)
    (capacity ttl now : Nat) :
    let cache := (origin.cache value).afterAll history
    (load value capacity ttl now (some (cache.save encode))).entries =
      (cache.entries.filter fun entry => now - entry.timestamp < ttl).rtake (max capacity 1) := by
  intro cache
  have storable : Storable cache.entries := (origin.storable value).afterAll counted
  have read := decode?_save shallow storable.counted back
  have young := storable.sublist (List.filter_sublist (p := fun entry => now - entry.timestamp < ttl))
  rw [load, Option.bind_some, read]
  exact foldl_place_entries [] (List.rtake_nil _).symm (by simp [new]) young.distinct

/-- Of four entries one is too old by then. There is room for two of the others, and the one that is
left out is the one that was used longest ago. -/
theorem entries_load_save_two_of_four :
    let history : List (Nat × Step String) :=
      [(5, .set "a" "1"), (6, .set "b" "2"), (7, .set "c" "3"), (8, .get "a"), (9, .set "d" "4")]
    let cache : Cache String := (Origin.new 4 60).cache Decoder.string |>.afterAll history
    cache.entries.map (·.key) = ["b", "c", "a", "d"] ∧
      (load Decoder.string 2 3 9 (some (cache.save Json.string))).entries =
        [⟨"a", "1", 8, 1⟩, ⟨"d", "4", 9, 0⟩] := by
  intro history cache
  have back (entry : CacheEntry String) :
      ReadsAs Decoder.string 0 (Json.string entry.value) entry.value :=
    ⟨.string (some entry.value), .string _, fun _ => rfl⟩
  have loaded := entries_load_save (by decide) (.new 4 60) history (by decide)
    (fun entry _ => back entry) 2 3 9
  refine ⟨by decide, loaded.trans ?_⟩
  decide

end Cache

end CodeAtlas
