import CodeAtlas.Cache.Snapshot
import CodeAtlas.Proofs.Cache.Lookup

namespace CodeAtlas.Cache

variable {α : Type} {cache : Cache α} {now : Nat} {key : String} {value : α}

/-- An entry of the key has the value, however old it is. -/
def Holds (cache : Cache α) (key : String) (value : α) : Prop :=
  ∃ entry ∈ cache.entries, entry.key = key ∧ entry.value = value

theorem not_holds_new (capacity ttl : Nat) : ¬ (new capacity ttl : Cache α).Holds key value := by
  rintro ⟨_, member, _⟩
  cases member

theorem not_holds_clear : ¬ cache.clear.2.Holds key value := by
  rintro ⟨_, member, _⟩
  cases member

theorem mem_of_mem_others {asked : String} {entry : CacheEntry α}
    (member : entry ∈ cache.others asked) : entry ∈ cache.entries :=
  (List.mem_filter.mp member).1

/-- A value is only ever found under a key that it is held under. -/
theorem holds_of_get (found : (cache.get now key).1 = some value) : cache.Holds key value := by
  rw [get_value] at found
  obtain ⟨entry, live, rfl⟩ := Option.map_eq_some_iff.mp found
  obtain ⟨member, keyed⟩ := mem_of_live? live
  exact ⟨entry, member, keyed, rfl⟩

theorem Holds.of_get {asked : String} (holds : (cache.get now asked).2.Holds key value) :
    cache.Holds key value := by
  obtain ⟨entry, member, keyed, valued⟩ := holds
  rw [get_cache] at member
  rcases List.mem_append.mp member with other | touched
  · exact ⟨entry, mem_of_mem_others other, keyed, valued⟩
  · obtain ⟨found, live, rfl⟩ := Option.map_eq_some_iff.mp (Option.mem_toList.mp touched)
    exact ⟨found, (mem_of_live? live).1, keyed, valued⟩

theorem Holds.of_place {entry : CacheEntry α} (holds : (cache.place entry).Holds key value) :
    (entry.key = key ∧ entry.value = value) ∨ cache.Holds key value := by
  obtain ⟨held, member, same⟩ := holds
  rcases List.mem_append.mp member with old | fresh
  · right
    refine ⟨held, ?_, same⟩
    split at old
    · exact List.mem_of_mem_tail old
    · exact mem_of_mem_others old
  · left
    obtain rfl := List.mem_singleton.mp fresh
    exact same

theorem Holds.of_set {written : String} {new : α}
    (holds : (cache.set now written new).Holds key value) :
    (key = written ∧ value = new) ∨ cache.Holds key value := by
  have placed : (cache.place ⟨written, new, now, 0⟩).Holds key value := holds
  rcases placed.of_place with ⟨keyed, valued⟩ | before
  · exact .inl ⟨keyed.symm, valued.symm⟩
  · exact .inr before

theorem Holds.of_restore {entries : List (CacheEntry α)}
    (holds : (cache.restore now entries).Holds key value) :
    cache.Holds key value ∨ ∃ entry ∈ entries, entry.key = key ∧ entry.value = value := by
  have taken : ∀ (cache : Cache α) (young : List (CacheEntry α)),
      (young.foldl place cache).Holds key value →
        cache.Holds key value ∨ ∃ entry ∈ young, entry.key = key ∧ entry.value = value := by
    intro cache young
    induction young generalizing cache with
    | nil => exact .inl
    | cons entry young ih =>
      intro holds
      rcases ih _ holds with placed | ⟨later, member, same⟩
      · rcases placed.of_place with here | before
        · exact .inr ⟨entry, List.mem_cons_self, here⟩
        · exact .inl before
      · exact .inr ⟨later, List.mem_cons_of_mem entry member, same⟩
  rcases taken _ _ holds with before | ⟨entry, member, same⟩
  · exact .inl before
  · exact .inr ⟨entry, (List.mem_filter.mp member).1, same⟩

end CodeAtlas.Cache
