import CodeAtlas.Proofs.Cache.Lookup
import CodeAtlas.Proofs.Cache.RoundTrip
import Mathlib.Data.List.Nodup
import Mathlib.Data.List.Perm.Subperm

namespace CodeAtlas.Cache

variable {α : Type} {cache : Cache α} {now : Nat} {key : String} {value : α}
  {entry fresh : CacheEntry α} {entries : List (CacheEntry α)} {used : List String}

/-- Since an entry was used, no other keys were used but these: there stands no other entry of its key
before it, and after it stand entries of these keys, at most one of each. -/
def IsRecent (entry : CacheEntry α) (used : List String) (entries : List (CacheEntry α)) : Prop :=
  ∃ older younger, entries = older ++ entry :: younger ∧ (∀ other ∈ older, other.key ≠ entry.key) ∧
    (younger.map (·.key)).Nodup ∧ ∀ other ∈ younger, other.key ∈ used

namespace IsRecent

theorem last (absent : entry.key ∉ entries.map (·.key)) (used : List String) :
    IsRecent entry used (entries ++ [entry]) :=
  ⟨entries, [], rfl, fun other member same => absent (List.mem_map.mpr ⟨other, member, same⟩),
    List.nodup_nil, by simp⟩

theorem find? (recent : IsRecent entry used cache.entries) : cache.find? entry.key = some entry := by
  obtain ⟨older, younger, same, alone, _⟩ := recent
  have before : older.find? (·.key == entry.key) = none := by simpa using alone
  rw [Cache.find?, same, List.find?_append, before, Option.none_or, List.find?_cons_of_pos (by simp)]

theorem filter (recent : IsRecent entry used entries) (p : CacheEntry α → Bool)
    (stays : p entry = true) : IsRecent entry used (entries.filter p) := by
  obtain ⟨older, younger, rfl, alone, distinct, known⟩ := recent
  refine ⟨older.filter p, younger.filter p, ?_, ?_, ?_, ?_⟩
  · rw [List.filter_append, List.filter_cons_of_pos stays]
  · exact fun other member => alone other (List.mem_of_mem_filter member)
  · exact distinct.sublist (List.filter_sublist.map _)
  · exact fun other member => known other (List.mem_of_mem_filter member)

/-- An entry of one of the keys goes to the end. -/
theorem snoc (recent : IsRecent entry used entries) (absent : fresh.key ∉ entries.map (·.key))
    (known : fresh.key ∈ used) : IsRecent entry used (entries ++ [fresh]) := by
  obtain ⟨older, younger, rfl, alone, distinct, known'⟩ := recent
  refine ⟨older, younger ++ [fresh], by simp, alone, ?_, ?_⟩
  · have new : fresh.key ∉ younger.map (·.key) := fun member =>
      absent (by rw [List.map_append, List.map_cons]; simp [member])
    rw [← List.concat_eq_append, List.map_concat]
    exact distinct.concat new
  · simpa [or_imp, forall_and] using ⟨known', known⟩

/-- Where one of the keys has no entry, an entry stands before the recent one as soon as there are
more entries than keys. -/
theorem tail (recent : IsRecent entry used entries) (known : key ∈ used)
    (absent : ∀ other ∈ entries, other.key ≠ key) (full : used.length < entries.length) :
    IsRecent entry used entries.tail := by
  obtain ⟨older, younger, rfl, alone, distinct, known'⟩ := recent
  have distinct' : (key :: younger.map (·.key)).Nodup := by
    refine List.nodup_cons.mpr ⟨fun member => ?_, distinct⟩
    obtain ⟨other, listed, same⟩ := List.mem_map.mp member
    exact absent other (by simp [listed]) same
  have subset : key :: younger.map (·.key) ⊆ used := by
    refine List.cons_subset.mpr ⟨known, fun other member => ?_⟩
    obtain ⟨held, listed, rfl⟩ := List.mem_map.mp member
    exact known' held listed
  have few := (List.subperm_of_subset distinct' subset).length_le
  simp only [List.length_cons, List.length_map, List.length_append] at few full
  obtain ⟨oldest, older, rfl⟩ : ∃ oldest rest, older = oldest :: rest :=
    List.exists_cons_of_length_pos (by omega)
  exact ⟨older, younger, rfl, (List.forall_mem_cons.mp alone).2, distinct, known'⟩

theorem others (recent : IsRecent entry used cache.entries) (other : key ≠ entry.key) :
    IsRecent entry used (cache.others key) :=
  recent.filter (·.key != key) (bne_iff_ne.mpr (Ne.symm other))

theorem get (recent : IsRecent entry used cache.entries) (known : key ∈ used)
    (other : key ≠ entry.key) (now : Nat) : IsRecent entry used (cache.get now key).2.entries := by
  rw [get_cache]
  have stays := recent.others other
  cases live : cache.live? now key with
  | none =>
    rw [Option.map_none, Option.toList_none, List.append_nil]
    exact stays
  | some found =>
    have keyed : (touch now found).key = key := (mem_of_live? live).2
    refine stays.snoc ?_ (keyed ▸ known)
    rw [keyed]
    exact cache.key_not_mem_others key

theorem set (recent : IsRecent entry used cache.entries) (known : key ∈ used)
    (other : key ≠ entry.key) (room : used.length ≤ cache.capacity - 1) (now : Nat) (value : α) :
    IsRecent entry used (cache.set now key value).entries := by
  have some := List.length_pos_of_mem known
  have stays : IsRecent entry used (cache.kept key) := by
    unfold kept
    split
    · next full =>
      obtain ⟨absent, reached⟩ := evicts_iff.mp full
      exact recent.tail known (find?_eq_none_iff.mp absent) (by omega)
    · exact recent.others other
  exact stays.snoc (cache.key_not_mem_kept key) known

end IsRecent

end CodeAtlas.Cache
