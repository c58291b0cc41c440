import CodeAtlas.Proofs.Chunk.Partition
import CodeAtlas.Proofs.Outline.Symbols
import CodeAtlas.Proofs.Text.Colon
import Std.Data.String.ToNat

namespace CodeAtlas.Chunk

variable {options : ChunkOptions} {path content : String} {symbols : List Declared}
  {chunks : List Chunk}

theorem ofStretch?_spans {size : Nat} {lines : Array String} {stretch : Stretch}
    (run : ofStretch? ⟨size, false⟩ lines path stretch = some chunks)
    (within : stretch.first ≤ stretch.last + 1) :
    Tiles span stretch.first stretch.last chunks ∧ ∀ chunk ∈ chunks, chunk.path = path := by
  obtain ⟨windows, counted, rfl⟩ := Option.map_eq_some_iff.mp run
  have tiles := windowsUpTo?_spans counted (by omega) within
  have all : windows.filter (fun window => !(false && isBlankWindow lines window)) = windows :=
    List.filter_eq_self.mpr fun _ _ => rfl
  dsimp only
  rw [all]
  refine ⟨tiles.map fun _ => rfl, fun chunk member => ?_⟩
  obtain ⟨window, _, rfl⟩ := List.mem_map.mp member
  rfl

/-- Chunks that leave out the blank ones are among those that do not. -/
theorem cut_sublist (run : cut options path content symbols = .ok chunks) :
    ∃ all, cut ⟨options.maxLines, false⟩ path content symbols = .ok all ∧ chunks.Sublist all := by
  obtain ⟨size, skipBlank⟩ := options
  cases skipBlank with
  | false => exact ⟨chunks, run, .refl chunks⟩
  | true =>
    obtain ⟨pieces, made, _⟩ := cut_eq_ok_iff.mp run
    rw [funext (ofStretch?_skipBlank (Text.lines content).toArray path), mapM_map] at made
    obtain ⟨whole, made, _⟩ := Option.map_eq_some_iff.mp made
    have all : cut ⟨size, false⟩ path content symbols = .ok whole.flatten :=
      cut_eq_ok_iff.mpr ⟨whole, made, rfl⟩
    have kept := Except.ok.inj (run.symm.trans (cut_skipBlank all))
    refine ⟨whole.flatten, all, ?_⟩
    rw [kept]
    exact List.filter_sublist

/-- Whatever the options are, chunks that can be cut are in order, and none begins where another one
does. -/
theorem cut_pairwise (ordered : ∀ symbol ∈ symbols, symbol.firstLine ≤ symbol.lastLine)
    (run : cut options path content symbols = .ok chunks) :
    chunks.Pairwise (fun chunk other => chunk.firstLine < other.firstLine) ∧
      ∀ chunk ∈ chunks, chunk.path = path := by
  obtain ⟨all, whole, sublist⟩ := cut_sublist run
  obtain ⟨pieces, made, rfl⟩ := cut_eq_ok_iff.mp whole
  have outer : ∀ symbol ∈ outermost symbols, symbol.firstLine ≤ symbol.lastLine :=
    fun symbol member => ordered symbol (mem_of_mem_outermost member)
  have tiles := stretches_tiles (outermost symbols) outer 1
    (Nat.le_add_left 1 (Text.lines content).length)
  have parts : ∀ stretch ∈ stretches (Text.lines content).length 1 (outermost symbols),
      ∃ piece, ofStretch? ⟨options.maxLines, false⟩ (Text.lines content).toArray path stretch =
          some piece ∧
        Tiles span stretch.first stretch.last piece ∧ ∀ chunk ∈ piece, chunk.path = path := by
    intro stretch member
    obtain ⟨piece, here⟩ := exists_of_mapM made member
    have inside := tiles.bounds member
    simp only [Stretch.span] at inside
    exact ⟨piece, here, ofStretch?_spans here (by omega)⟩
  obtain ⟨others, same, tiled, paths⟩ := tiles.mapM parts
  obtain rfl := Option.some.inj (made.symm.trans same)
  exact ⟨tiled.pairwise.sublist sublist, fun chunk member => paths chunk (sublist.subset member)⟩

theorem ofSource_pairwise (run : ofSource options path content = .ok chunks) :
    chunks.Pairwise (fun chunk other => chunk.firstLine < other.firstLine) ∧
      ∀ chunk ∈ chunks, chunk.path = path := by
  unfold ofSource at run
  split at run
  · cases run
  · refine cut_pairwise ?_ run
    split
    · next outlined => exact Outline.ofSource_isOrdered outlined
    · exact fun _ nothing => nomatch nothing

theorem colon_not_mem_toString (n : Nat) : ':' ∉ (toString n).toList := by
  intro member
  have written : ':' ∈ Nat.toDigits 10 n := by simpa [toString, Nat.repr] using member
  have digit := Nat.isDigit_of_mem_toDigits (by decide) (by decide) written
  exact absurd digit (by decide)

theorem id_eq (chunk : Chunk) :
    chunk.id = chunk.path ++ ":" ++ (toString chunk.firstLine ++ ":" ++ toString chunk.lastLine) := by
  simp only [id, String.append_assoc]

theorem firstLine_of_id_eq {chunk other : Chunk} (paths : chunk.path = other.path)
    (ids : chunk.id = other.id) : chunk.firstLine = other.firstLine := by
  rw [id_eq, id_eq, paths] at ids
  have lines := String.append_right_inj _ |>.mp ids
  exact Nat.repr_injective
    (Text.colon_append_inj (colon_not_mem_toString _) (colon_not_mem_toString _) lines).1

theorem id_startsWith (chunk : Chunk) : chunk.id.startsWith (chunk.path ++ ":") = true := by
  rw [String.startsWith_string_iff, id_eq, String.toList_append (s := chunk.path ++ ":")]
  exact List.prefix_append ..

theorem nodup_ids_of_pairwise
    (pairwise : chunks.Pairwise fun chunk other => chunk.firstLine < other.firstLine)
    (paths : ∀ chunk ∈ chunks, chunk.path = path) : (chunks.map id).Nodup := by
  refine List.pairwise_map.mpr (pairwise.imp_of_mem ?_)
  intro chunk other member member' before same
  have lines := firstLine_of_id_eq ((paths chunk member).trans (paths other member').symm) same
  omega

theorem nodup_ids (run : ofSource options path content = .ok chunks) : (chunks.map id).Nodup :=
  nodup_ids_of_pairwise (ofSource_pairwise run).1 (ofSource_pairwise run).2

end CodeAtlas.Chunk
