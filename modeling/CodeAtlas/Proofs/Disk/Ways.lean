import CodeAtlas.Disk.Tree
import CodeAtlas.Proofs.Path.Names

namespace CodeAtlas

namespace Path

variable {names front back : List String}

end Path

namespace Tree

variable {tree item : Tree} {names way done : Names} {name : String}

/-- A name that the folders of a tree may have for something in them. -/
@[mk_iff]
structure IsEntryName (name : String) : Prop extends Path.IsFileName name where
  whole : '\x00' ∉ name.toList
  short : name.utf8ByteSize ≤ maxNameBytes

instance (name : String) : Decidable (IsEntryName name) := decidable_of_iff' _ (isEntryName_iff name)

/-- Folders hold things of different names, and the names are such as files may have. -/
inductive Sound : Tree → Prop
  | file (bytes : ByteArray) : Sound (.file bytes)
  | folder {entries : List (String × Tree)} : (entries.map (·.1)).Nodup →
      (∀ entry ∈ entries, IsEntryName entry.1) → (∀ entry ∈ entries, Sound entry.2) →
      Sound (.folder entries)

theorem at?_append (tree : Tree) (front back : Names) :
    tree.at? (front ++ back) = (tree.at? front).bind (at? · back) := by
  induction front generalizing tree with
  | nil => simp [at?]
  | cons name front ih =>
    cases tree with
    | file bytes => rfl
    | folder entries =>
      rw [List.cons_append, at?, at?]
      cases entries.lookup name with
      | none => rfl
      | some inner => exact ih inner

theorem exists_folder_of_at?_cons (there : tree.at? (name :: names) = some item) :
    ∃ entries inner, tree = folder entries ∧ (name, inner) ∈ entries ∧
      entries.lookup name = some inner ∧ inner.at? names = some item := by
  cases tree with
  | file bytes => cases there
  | folder entries =>
    obtain ⟨inner, found, inside⟩ := Option.bind_eq_some_iff.mp there
    obtain ⟨before, after, rfl, _⟩ := List.lookup_eq_some_iff.mp found
    exact ⟨_, inner, rfl, by simp, found, inside⟩

theorem Sound.at? (sound : tree.Sound) (there : tree.at? way = some item) :
    item.Sound ∧ ∀ name ∈ way, IsEntryName name := by
  induction way generalizing tree with
  | nil =>
    obtain rfl := Option.some.inj there
    exact ⟨sound, fun _ nothing => absurd nothing List.not_mem_nil⟩
  | cons name way ih =>
    obtain ⟨entries, inner, rfl, member, _, inside⟩ := exists_folder_of_at?_cons there
    cases sound with
    | folder _ named sounds =>
      obtain ⟨ends, others⟩ := ih (sounds _ member) inside
      exact ⟨ends, List.forall_mem_cons.mpr ⟨named _ member, others⟩⟩

/-- What a folder holds is found under its name. -/
theorem Sound.lookup {entries : List (String × Tree)} (sound : (Tree.folder entries).Sound)
    (member : (name, item) ∈ entries) : entries.lookup name = some item := by
  cases sound with
  | folder distinct _ _ =>
    obtain ⟨before, after, rfl⟩ := List.append_of_mem member
    refine List.lookup_eq_some_iff.mpr ⟨before, after, rfl, fun entry earlier => bne_iff_ne.mpr ?_⟩
    rintro rfl
    rw [List.map_append, List.nodup_append] at distinct
    exact distinct.2.2 _ (List.mem_map_of_mem earlier) _ (by simp) rfl

/-- The segments of a path that neither stay in a folder nor lead out of it. -/
def steps (path : String) : List String := (segments path).filter fun name => name != "." && name != ".."

section Rooted

variable (sound : tree.Sound) (rooted : tree.isFolder [] = true) (there : tree.at? way = some item)
include sound rooted there

end Rooted

end Tree

end CodeAtlas
