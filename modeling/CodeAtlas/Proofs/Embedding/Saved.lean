import CodeAtlas.Embedding.Store
import CodeAtlas.Proofs.Cache.Holds
import CodeAtlas.Proofs.Cache.RoundTrip

namespace CodeAtlas

open Json

namespace EmbeddingCache

theorem readsAs_vector {vector : Embedding} (back : ∀ x ∈ vector, ReadsBack x) :
    ReadsAs vectorDecoder 1 (encodeVector vector) vector :=
  readsAs_list fun x member => readsAs_single (back x member)

/-- The same key and the same value. -/
def Same (entry read : CacheEntry Embedding) : Prop := read.key = entry.key ∧ read.value = entry.value

/-- A time that does not fit in 64 bits is not read, and neither is the entry then. -/
theorem makes_entry {entry : CacheEntry Embedding} (back : ∀ x ∈ entry.value, ReadsBack x) :
    Makes (Cache.entryDecoder vectorDecoder) 2 (Cache.encodeEntry encodeVector entry)
      fun made => ∀ read, made = some read → Same entry read := by
  obtain ⟨value, spells, vector⟩ := readsAs_vector back
  refine ⟨Cache.entryDocument entry value, Cache.spells_entryDocument spells, fun more read made => ?_⟩
  rw [Cache.entryDecoder_entryDocument (vector more)] at made
  obtain ⟨_, _, made⟩ := Option.bind_eq_some_iff.mp made
  obtain ⟨_, _, made⟩ := Option.bind_eq_some_iff.mp made
  obtain rfl := Option.some.inj made
  exact ⟨rfl, rfl⟩

theorem makes_entries {cache : EmbeddingCache}
    (back : ∀ entry ∈ cache.entries, ∀ x ∈ entry.value, ReadsBack x) :
    ∀ entries, decode? (Cache.entriesDecoder vectorDecoder) cache.save = some entries →
      cache.entries.Forall₂ Same entries := by
  obtain ⟨documents, spells, all⟩ := makes_list fun entry member => makes_entry (back entry member)
  have makes : Makes (Cache.entriesDecoder vectorDecoder) 4
      (.object [("entries", .array (cache.entries.map (Cache.encodeEntry encodeVector)))])
      fun made => ∀ entries, made = some entries → cache.entries.Forall₂ Same entries := by
    refine ⟨.ofMembers [("entries", documents)], .object (.cons _ spells .nil),
      fun more entries made => ?_⟩
    rw [Cache.entriesDecoder, Decoder.record, Decoder.fields?_ofMembers _ (by simp)] at made
    simp [lookup_cons_eq_ite, Decoder.required] at made
    exact all more entries made
  exact makes.decode? (by decide)

/-- Whatever room there is and however much time has passed. -/
theorem holds_of_load {cache : EmbeddingCache} {capacity ttl now : Nat} {key : String}
    {vector : Embedding} (back : ∀ entry ∈ cache.entries, ∀ x ∈ entry.value, ReadsBack x)
    (holds : (load capacity ttl now (some cache.save)).Holds key vector) :
    cache.Holds key vector := by
  unfold load Cache.load at holds
  split at holds
  · exact absurd holds (Cache.not_holds_new _ _)
  · next entries read =>
    rcases Cache.Holds.of_restore holds with none | ⟨entry, member, keyed, valued⟩
    · exact absurd none (Cache.not_holds_new _ _)
    · have related := makes_entries back entries read
      obtain ⟨old, held, same⟩ := exists_of_forall₂ related member
      exact ⟨old, held, same.1.symm.trans keyed, same.2.symm.trans valued⟩

end EmbeddingCache

end CodeAtlas
