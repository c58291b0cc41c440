import CodeAtlas.Proofs.Cache.RoundTrip
import CodeAtlas.Proofs.Cache.Shelf
import CodeAtlas.Proofs.Json.Legible

namespace CodeAtlas

open Json

/-- What a cache is asked. What is loaded is what was saved last, if anything was. -/
inductive Cache.Act (α : Type) where
  | ask (step : Step α)
  | save
  | load (capacity ttl : Nat)

/-- How a kind of cache does what it is asked. -/
structure Cache.Kind (κ α : Type) where
  after : κ → Nat → Step α → κ
  save : κ → String
  load : Nat → Nat → Nat → Option String → κ

/-- A cache and the text it was saved as last. -/
structure Filed (κ : Type) where
  held : κ
  text : Option String

namespace Filed

variable {κ α : Type}

def act (kind : Cache.Kind κ α) (filed : Filed κ) (now : Nat) : Cache.Act α → Filed κ
  | .ask step => { filed with held := kind.after filed.held now step }
  | .save => { filed with text := some (kind.save filed.held) }
  | .load capacity ttl => { filed with held := kind.load capacity ttl now filed.text }

def run (kind : Cache.Kind κ α) (filed : Filed κ) (history : List (Nat × Cache.Act α)) : Filed κ :=
  history.foldl (fun filed event => filed.act kind event.1 event.2) filed

end Filed

namespace Cache

variable {α : Type}

def kind [PatternLimit] (value : Decoder α) (encode : α → Json) : Kind (Cache α) α :=
  ⟨after, save encode, load value⟩

def shelfKind [PatternLimit] (value : Decoder α) (encode : α → Json) : Kind (Shelf α) α :=
  ⟨Shelf.after, Shelf.save encode, Shelf.load value⟩

/-- The entries stand by age under keys of their own, and none comes from the future. -/
structure Aged (now : Nat) (entries : List (CacheEntry α)) : Prop where
  byAge : entries.Pairwise fun older younger => older.timestamp ≤ younger.timestamp
  past : ∀ entry ∈ entries, entry.timestamp ≤ now
  distinct : (entries.map (·.key)).Nodup

namespace Aged

variable {now later : Nat} {entry : CacheEntry α} {entries others : List (CacheEntry α)}

theorem nil : Aged now ([] : List (CacheEntry α)) := ⟨.nil, by simp, List.nodup_nil⟩

theorem sublist (aged : Aged now entries) (fewer : others.Sublist entries) : Aged now others :=
  ⟨aged.byAge.sublist fewer, fun entry member => aged.past entry (fewer.subset member),
    aged.distinct.sublist (fewer.map _)⟩

theorem wait (aged : Aged now entries) (forward : now ≤ later) : Aged later entries :=
  ⟨aged.byAge, fun entry member => Nat.le_trans (aged.past entry member) forward, aged.distinct⟩

/-- An entry of this moment is younger than all others. -/
theorem snoc (aged : Aged now entries) (fresh : entry.key ∉ entries.map (·.key))
    (present : entry.timestamp = now) : Aged now (entries ++ [entry]) := by
  refine ⟨?_, ?_, ?_⟩
  · refine List.pairwise_append.mpr ⟨aged.byAge, List.pairwise_singleton _ _, ?_⟩
    intro older member younger last
    obtain rfl := List.mem_singleton.mp last
    exact Nat.le_trans (aged.past older member) (Nat.le_of_eq present.symm)
  · intro other member
    rcases List.mem_append.mp member with held | last
    · exact aged.past other held
    · obtain rfl := List.mem_singleton.mp last
      exact Nat.le_of_eq present
  · rw [← List.concat_eq_append, List.map_concat]
    exact aged.distinct.concat fresh

theorem of_related {read : List (CacheEntry α)} (aged : Aged now entries)
    (related : entries.Forall₂ (fun entry read => read.key = entry.key ∧
      read.timestamp = entry.timestamp) read) : Aged now read := by
  have keys : read.map (·.key) = entries.map (·.key) := by
    induction related with
    | nil => rfl
    | cons same _ ih =>
      rw [List.map_cons, List.map_cons, same.1, ih (aged.sublist (List.sublist_cons_self _ _))]
  have times : read.map (·.timestamp) = entries.map (·.timestamp) := by
    clear keys
    induction related with
    | nil => rfl
    | cons same _ ih =>
      rw [List.map_cons, List.map_cons, same.2, ih (aged.sublist (List.sublist_cons_self _ _))]
  refine ⟨?_, ?_, keys ▸ aged.distinct⟩
  · have sorted := List.pairwise_map.mpr aged.byAge
    rw [← times] at sorted
    exact List.pairwise_map.mp sorted
  · have past : ∀ time ∈ entries.map (·.timestamp), time ≤ now := List.forall_mem_map.mpr aged.past
    rw [← times] at past
    exact List.forall_mem_map.mp past

end Aged

section Steps

variable {cache : Cache α} {now : Nat} {entry : CacheEntry α} {key : String}

theorem length_kept_lt (roomy : cache.HasRoom) (key : String) :
    (cache.kept key).length < cache.capacity := by
  have fits := roomy.fits
  unfold kept
  split
  · next full =>
    have reached := (evicts_iff.mp full).2
    have room := roomy.room
    rw [List.length_tail]
    omega
  · next free =>
    cases found : cache.find? key with
    | none =>
      have unreached : ¬ cache.capacity ≤ cache.entries.length := fun reached =>
        free (evicts_iff.mpr ⟨found, reached⟩)
      rw [others_of_find?_none found]
      omega
    | some entry => exact Nat.lt_of_lt_of_le (length_others_lt found) fits

theorem HasRoom.place (roomy : cache.HasRoom) (entry : CacheEntry α) : (cache.place entry).HasRoom := by
  refine ⟨roomy.room, ?_⟩
  have kept := length_kept_lt roomy entry.key
  change (cache.kept entry.key ++ [entry]).length ≤ cache.capacity
  rw [List.length_append, List.length_singleton]
  exact kept

theorem HasRoom.fewer {entries : List (CacheEntry α)} {stats : CacheStats} {overflowed : Bool}
    (roomy : cache.HasRoom) (fewer : entries.length ≤ cache.entries.length) :
    HasRoom { cache with entries, stats, overflowed } :=
  ⟨roomy.room, Nat.le_trans fewer roomy.fits⟩

theorem hasRoom_new (capacity ttl : Nat) : (new capacity ttl : Cache α).HasRoom :=
  ⟨Nat.le_max_right .., Nat.zero_le _⟩

theorem HasRoom.get (roomy : cache.HasRoom) (now : Nat) (key : String) :
    (cache.get now key).2.HasRoom := by
  rw [get_cache]
  refine roomy.fewer ?_
  rw [List.length_append]
  cases live : cache.live? now key with
  | none => exact List.length_filter_le ..
  | some entry =>
    have fewer := length_others_lt (Option.filter_eq_some_iff.mp live).1
    rw [Option.map_some, Option.toList_some, List.length_singleton]
    omega

theorem HasRoom.after [PatternLimit] (roomy : cache.HasRoom) (now : Nat) (step : Step α) :
    (cache.after now step).HasRoom := by
  cases step with
  | set key value =>
    have placed := roomy.place ⟨key, value, now, 0⟩
    exact ⟨placed.room, placed.fits⟩
  | get key => exact roomy.get now key
  | contains key => exact roomy
  | remove key => exact roomy.fewer (List.length_filter_le ..)
  | invalidate pattern =>
    change (((cache.invalidate? pattern).map (·.2)).getD cache).HasRoom
    unfold invalidate?
    cases Pattern.parse? pattern with
    | none => exact roomy
    | some pattern => exact roomy.fewer (List.length_filter_le ..)
  | clear => exact roomy.fewer (Nat.zero_le _)

theorem Aged.place (aged : Aged now cache.entries) (present : entry.timestamp = now) :
    Aged now (cache.place entry).entries :=
  (aged.sublist (cache.kept_sublist entry.key)).snoc (cache.key_not_mem_kept entry.key) present

/-- A cache that has room, with entries by age. -/
structure InAge (now : Nat) (cache : Cache α) : Prop where
  roomy : cache.HasRoom
  aged : Aged now cache.entries

theorem inAge_new (capacity ttl now : Nat) : InAge now (new capacity ttl : Cache α) :=
  ⟨hasRoom_new capacity ttl, .nil⟩

theorem Aged.get (aged : Aged now cache.entries) (key : String) :
    Aged now (cache.get now key).2.entries := by
  have others := aged.sublist (List.filter_sublist (p := fun entry => entry.key != key))
  rw [get_cache]
  cases live : cache.live? now key with
  | none =>
    rw [Option.map_none, Option.toList_none, List.append_nil]
    exact others
  | some entry =>
    refine others.snoc ?_ rfl
    rw [show (touch now entry).key = key from (mem_of_live? live).2]
    exact cache.key_not_mem_others key

theorem InAge.after [PatternLimit] (sound : InAge now cache) (step : Step α) :
    InAge now (cache.after now step) := by
  refine ⟨sound.roomy.after now step, ?_⟩
  have fewer (p : CacheEntry α → Bool) : Aged now (cache.entries.filter p) :=
    sound.aged.sublist List.filter_sublist
  cases step with
  | set key value => exact sound.aged.place rfl
  | get key => exact sound.aged.get key
  | contains key => exact sound.aged
  | remove key => exact fewer _
  | invalidate pattern =>
    change Aged now (((cache.invalidate? pattern).map (·.2)).getD cache).entries
    unfold invalidate?
    cases Pattern.parse? pattern with
    | none => exact sound.aged
    | some pattern => exact fewer _
  | clear => exact .nil

end Steps

section Load

variable {value : Decoder α} {encode : α → Json} {cache : Cache α} {now : Nat}

theorem save_legible (encode : α → Json) (cache : Cache α) :
    cache.save (fun x => (encode x).legible) = cache.save encode := by
  have entry (entry : CacheEntry α) : (encodeEntry (fun x => (encode x).legible) entry).render =
      (encodeEntry encode entry).render := by
    simp only [encodeEntry, render, renderMembers, render_legible]
  have rest (entries : List (CacheEntry α)) :
      renderItems (entries.map (encodeEntry fun x => (encode x).legible)) =
        renderItems (entries.map (encodeEntry encode)) := by
    induction entries with
    | nil => rfl
    | cons first entries ih => simp only [List.map_cons, renderItems, entry, ih]
  unfold save
  cases cache.entries with
  | nil => rfl
  | cons first entries => simp only [render, List.map_cons, entry, rest, renderMembers]

/-- Whatever becomes of the values, the keys and the times that are read are those that were saved. -/
theorem related_of_decode? {read : List (CacheEntry α)}
    (decoded : decode? (entriesDecoder value) (cache.save encode) = some read) :
    cache.entries.Forall₂ (fun entry read => read.key = entry.key ∧
      read.timestamp = entry.timestamp) read := by
  have each : ∀ entry ∈ cache.entries, Makes (entryDecoder value) 1
      (encodeEntry (fun x => (encode x).legible) entry) fun made => ∀ read, made = some read →
        read.key = entry.key ∧ read.timestamp = entry.timestamp := by
    intro entry _
    obtain ⟨document, spells⟩ := exists_document (encode entry.value)
    refine ⟨entryDocument entry document, spells_entryDocument spells, fun more read made => ?_⟩
    rw [entryDecoder_document] at made
    obtain ⟨_, _, made⟩ := Option.bind_eq_some_iff.mp made
    obtain ⟨_, timed, made⟩ := Option.bind_eq_some_iff.mp made
    obtain ⟨_, _, made⟩ := Option.bind_eq_some_iff.mp made
    obtain rfl := Option.some.inj made
    exact ⟨rfl, Decoder.eq_of_natural_literal timed⟩
  obtain ⟨documents, spells, all⟩ := makes_list each
  have makes : Makes (entriesDecoder value) 3
      (.object [("entries", .array (cache.entries.map (encodeEntry fun x => (encode x).legible)))])
      fun made => ∀ read, made = some read → cache.entries.Forall₂ (fun entry read =>
        read.key = entry.key ∧ read.timestamp = entry.timestamp) read := by
    refine ⟨.ofMembers [("entries", documents)], .object (.cons _ spells .nil), fun more read made => ?_⟩
    rw [entriesDecoder, Decoder.record, Decoder.fields?_ofMembers _ (by simp)] at made
    simp [lookup_cons_eq_ite, Decoder.required] at made
    exact all more read made
  rw [← save_legible] at decoded
  exact makes.decode? (by decide) read decoded

theorem inAge_load {past : Nat} {text : Option String} (forward : past ≤ now)
    (saved : ∀ written ∈ text, ∃ cache : Cache α, Aged past cache.entries ∧ written = cache.save encode)
    (capacity ttl : Nat) : InAge now (load value capacity ttl now text) := by
  unfold load
  split
  · exact inAge_new capacity ttl now
  · next read decoded =>
    obtain ⟨written, filed, decoded⟩ := Option.bind_eq_some_iff.mp decoded
    obtain ⟨cache, aged, rfl⟩ := saved written filed
    have young := ((aged.of_related (related_of_decode? decoded)).wait forward).sublist
      (List.filter_sublist (p := fun entry => now - entry.timestamp < ttl))
    have empty : (new capacity ttl : Cache α).entries =
        [].rtake (new capacity ttl : Cache α).capacity := (List.rtake_nil _).symm
    have holds := foldl_place_entries [] empty (Nat.le_max_right ..) young.distinct
    change InAge now ((read.filter fun entry => now - entry.timestamp < ttl).foldl place (new capacity ttl))
    generalize read.filter (fun entry => now - entry.timestamp < ttl) = kept at young holds ⊢
    have rest := foldl_place_eq kept (new capacity ttl)
    rw [List.nil_append] at holds
    rw [rest, holds]
    refine ⟨⟨Nat.le_max_right .., ?_⟩, young.sublist (List.drop_sublist _ _)⟩
    change (kept.rtake (max capacity 1)).length ≤ max capacity 1
    rw [List.rtake, List.length_drop]
    omega

end Load

section Run

variable {value : Decoder α} {encode : α → Json} {past now : Nat}

/-- What a run preserves: the cache is in order, and so was the one that was saved last. -/
structure Orderly (encode : α → Json) (now : Nat) (filed : Filed (Cache α)) : Prop where
  held : InAge now filed.held
  saved : ∀ text ∈ filed.text, ∃ cache : Cache α, Aged now cache.entries ∧ text = cache.save encode

variable {filed : Filed (Cache α)}

theorem Orderly.wait (orderly : Orderly encode past filed) (forward : past ≤ now) :
    Orderly encode now filed := by
  refine ⟨⟨orderly.held.roomy, orderly.held.aged.wait forward⟩, fun text filed => ?_⟩
  obtain ⟨cache, aged, same⟩ := orderly.saved text filed
  exact ⟨cache, aged.wait forward, same⟩

theorem Orderly.act [PatternLimit] (orderly : Orderly encode past filed) (forward : past ≤ now) (act : Act α) :
    Orderly encode now (filed.act (kind value encode) now act) := by
  have waited := orderly.wait forward
  cases act with
  | ask step => exact ⟨waited.held.after step, waited.saved⟩
  | save =>
    refine ⟨waited.held, ?_⟩
    rintro text ⟨⟩
    exact ⟨filed.held, waited.held.aged, rfl⟩
  | load capacity ttl => exact ⟨inAge_load forward orderly.saved capacity ttl, waited.saved⟩

variable (value encode now) in
theorem act_shelf [PatternLimit] (roomy : filed.held.HasRoom) (act : Act α) :
    Filed.act (shelfKind value encode) ⟨filed.held.shelf, filed.text⟩ now act =
      ⟨(filed.act (kind value encode) now act).held.shelf,
        (filed.act (kind value encode) now act).text⟩ := by
  cases act with
  | ask step => exact congrArg (Filed.mk · filed.text) (shelf_after roomy now step)
  | save => exact congrArg (fun text => Filed.mk filed.held.shelf (some text)) (shelf_save encode filed.held)
  | load capacity ttl => exact congrArg (Filed.mk · filed.text) (shelf_load value capacity ttl now filed.text)

variable (value) in
/-- What holds after every act holds after a run, and so the map of the cache says what its entries
say. -/
theorem Orderly.run [PatternLimit] {history : List (Nat × Act α)} (orderly : Orderly encode past filed)
    (after : ∀ event ∈ history, past ≤ event.1)
    (forward : (history.map (·.1)).Pairwise (· ≤ ·)) :
    (∃ now, Orderly encode now (filed.run (kind value encode) history)) ∧
      (Filed.run (shelfKind value encode) ⟨filed.held.shelf, filed.text⟩ history).held =
        (filed.run (kind value encode) history).held.shelf := by
  induction history generalizing past filed with
  | nil => exact ⟨⟨past, orderly⟩, rfl⟩
  | cons event history ih =>
    obtain ⟨first, _⟩ := List.forall_mem_cons.mp after
    obtain ⟨next, rest⟩ := List.pairwise_cons.mp forward
    have kept := act_shelf value encode event.1 orderly.held.roomy event.2
    unfold Filed.run
    rw [List.foldl_cons, List.foldl_cons, kept]
    exact ih (orderly.act first event.2) (List.forall_mem_map.mp next) rest

end Run

/-- What a full cache pushes out is the first of its entries. -/
theorem pushed_out {cache : Cache α} {now : Nat} {key : String} {x : α} {evicted : CacheEntry α}
    (held : evicted ∈ cache.entries) (other : evicted.key ≠ key)
    (gone : evicted ∉ (cache.set now key x).entries) : ∃ rest, cache.entries = evicted :: rest := by
  have dropped : evicted ∉ cache.kept key := fun stays => gone (List.mem_append_left _ stays)
  unfold kept at dropped
  split at dropped
  · obtain ⟨oldest, rest, entries⟩ := List.exists_cons_of_ne_nil (List.ne_nil_of_mem held)
    rw [entries, List.tail_cons] at dropped
    rw [entries] at held
    obtain rfl := (List.mem_cons.mp held).resolve_right dropped
    exact ⟨rest, entries⟩
  · exact absurd (List.mem_filter.mpr ⟨held, by simpa using other⟩) dropped

/-- However a new cache is used, saved and loaded, as long as the clock does not go back: its entries
stand by age; its map holds every entry under the entry's own key, and no two under one; there is room
for all of them; and what is pushed out by a new key is the oldest, which is too old to be found if
anything is. -/
theorem order_is_age [PatternLimit] (value : Decoder α) (encode : α → Json) (capacity ttl : Nat)
    {history : List (Nat × Act α)} (forward : (history.map (·.1)).Pairwise (· ≤ ·)) :
    let cache := (Filed.run (kind value encode) ⟨new capacity ttl, none⟩ history).held
    let map := (Filed.run (shelfKind value encode) ⟨.new capacity ttl, none⟩ history).held
    (cache.entries.map (·.timestamp)).Pairwise (· ≤ ·) ∧
      (cache.entries.map (·.key)).Nodup ∧
      map.slots = cache.entries.map (fun entry => (entry.key, entry)) ∧
      cache.entries.length ≤ cache.capacity ∧
      ∀ now key x, ∀ evicted ∈ cache.entries, evicted.key ≠ key →
        evicted ∉ (cache.set now key x).entries →
        (∀ entry ∈ cache.entries, evicted.timestamp ≤ entry.timestamp) ∧
          ∀ entry ∈ cache.entries, cache.isExpired now entry = true →
            cache.isExpired now evicted = true := by
  intro cache map
  have start : Orderly encode 0 ⟨(new capacity ttl : Cache α), none⟩ :=
    ⟨inAge_new capacity ttl 0, by rintro _ ⟨⟩⟩
  obtain ⟨⟨last, orderly⟩, kept⟩ := start.run value (fun _ _ => Nat.zero_le _) forward
  have aged := orderly.held.aged
  refine ⟨List.pairwise_map.mpr aged.byAge, aged.distinct, congrArg Shelf.slots kept,
    orderly.held.roomy.fits, ?_⟩
  intro now key x evicted held other gone
  obtain ⟨rest, entries⟩ := pushed_out held other gone
  have oldest : ∀ entry ∈ cache.entries, evicted.timestamp ≤ entry.timestamp := by
    have sorted := aged.byAge
    rw [show (Filed.run (kind value encode) ⟨new capacity ttl, none⟩ history).held = cache from rfl,
      entries] at sorted
    rw [entries]
    exact List.forall_mem_cons.mpr ⟨Nat.le_refl _, (List.pairwise_cons.mp sorted).1⟩
  refine ⟨oldest, fun entry member expired => ?_⟩
  have older := oldest entry member
  simp only [isExpired, decide_eq_true_eq] at expired ⊢
  omega

/-- A cache with room for two is saved and loaded, with a shorter time to live. Of its entries the one
that was found last is younger than the other one, though it was written before; and when a third key
is written, the other one goes, which is too old by then. -/
theorem order_is_age_reloaded :
    let history : List (Nat × Act String) := [(1, .ask (.set "a" "1")), (2, .ask (.set "b" "2")),
      (3, .ask (.get "a")), (4, .save), (5, .load 2 6)]
    let cache := (Filed.run (kind Decoder.string Json.string) ⟨new 2 60, none⟩ history).held
    (history.map (·.1)).Pairwise (· ≤ ·) ∧
      cache.entries = [⟨"b", "2", 2, 0⟩, ⟨"a", "1", 3, 1⟩] ∧
      (cache.set 9 "c" "3").entries = [⟨"a", "1", 3, 1⟩, ⟨"c", "3", 9, 0⟩] ∧
      cache.isExpired 9 ⟨"b", "2", 2, 0⟩ = true ∧ cache.isExpired 9 ⟨"a", "1", 3, 1⟩ = false ∧
      ∀ entry ∈ cache.entries, 2 ≤ entry.timestamp := by
  intro history cache
  have forward : (history.map (·.1)).Pairwise (· ≤ ·) := by decide
  let saved : Cache String := ⟨2, 60, [⟨"b", "2", 2, 0⟩, ⟨"a", "1", 3, 1⟩], ⟨1, 0, 0, 0⟩, false⟩
  have read : decode? (entriesDecoder Decoder.string) (saved.save Json.string) = some saved.entries :=
    decode?_save (show 0 + 3 ≤ maxDepth by decide) (by unfold CacheEntry.Counted; decide) fun entry _ =>
      ⟨.string (some entry.value), .string _, fun _ => rfl⟩
  have loaded : cache = ⟨2, 6, [⟨"b", "2", 2, 0⟩, ⟨"a", "1", 3, 1⟩], .zero, false⟩ := by
    let asked : Cache String :=
      (new 2 60).afterAll [(1, .set "a" "1"), (2, .set "b" "2"), (3, .get "a")]
    have before : asked = saved := by decide
    have last : cache = load Decoder.string 2 6 5 (some (asked.save Json.string)) := by
      simp only [cache, history, asked, Filed.run, Filed.act, kind, afterAll, List.foldl_cons,
        List.foldl_nil]
    rw [last, before, load, Option.bind_some, read]
    decide
  obtain ⟨_, _, _, _, evicts⟩ := order_is_age Decoder.string Json.string 2 60 forward
  have evicted := evicts 9 "c" "3" ⟨"b", "2", 2, 0⟩
  rw [show (Filed.run (kind Decoder.string Json.string) ⟨new 2 60, none⟩ history).held = cache from rfl,
    loaded] at evicted
  obtain ⟨oldest, _⟩ := evicted (by decide) (by decide) (by decide)
  rw [loaded]
  exact ⟨forward, rfl, by decide, by decide, by decide, oldest⟩

end Cache

end CodeAtlas
