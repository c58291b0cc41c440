import CodeAtlas.Proofs.Chunk.Ids

namespace CodeAtlas.Chunk

theorem windowsUpTo?_counted {size last count first : Nat} {windows : List (Nat × Nat)}
    (run : windowsUpTo? size last count first = some windows) :
    ∀ window ∈ windows, window.1 ≤ window.2 ∧ window.2 < UInt64.size := by
  induction count generalizing first windows with
  | zero =>
    obtain rfl := Option.some.inj run
    exact fun _ nothing => nomatch nothing
  | succ count ih =>
    unfold windowsUpTo? at run
    split at run
    · obtain rfl := Option.some.inj run
      exact fun _ nothing => nomatch nothing
    · next inside =>
      obtain ⟨stop, ends, run⟩ := Option.bind_eq_some_iff.mp run
      obtain ⟨others, later, rfl⟩ := Option.map_eq_some_iff.mp run
      have fits := of_windowEnd? ends
      refine List.forall_mem_cons.mpr ⟨?_, ih later⟩
      dsimp only
      omega

variable {options : ChunkOptions} {path content : String} {symbols : List Declared}
  {chunks : List Chunk}

/-- Both lines of the chunk fit in 64 bits. -/
def Counted (chunk : Chunk) : Prop := chunk.firstLine < UInt64.size ∧ chunk.lastLine < UInt64.size

theorem ofStretch?_counted {lines : Array String} {stretch : Stretch}
    (run : ofStretch? options lines path stretch = some chunks) :
    ∀ chunk ∈ chunks, chunk.Counted := by
  obtain ⟨windows, counted, rfl⟩ := Option.map_eq_some_iff.mp run
  intro chunk member
  obtain ⟨window, kept, rfl⟩ := List.mem_map.mp member
  obtain ⟨ordered, stop⟩ := windowsUpTo?_counted counted window (List.mem_filter.mp kept).1
  exact ⟨Nat.lt_of_le_of_lt ordered stop, stop⟩

theorem cut_counted (run : cut options path content symbols = .ok chunks) :
    ∀ chunk ∈ chunks, chunk.Counted := by
  unfold cut at run
  dsimp only at run
  split at run
  · next pieces made =>
    obtain rfl := Except.ok.inj run
    intro chunk member
    obtain ⟨piece, listed, inside⟩ := List.mem_flatten.mp member
    obtain ⟨stretch, _, cutOut⟩ := exists_of_mem_mapM made listed
    exact ofStretch?_counted cutOut chunk inside
  · cases run

theorem ofSource_counted (run : ofSource options path content = .ok chunks) :
    ∀ chunk ∈ chunks, chunk.Counted := by
  unfold ofSource at run
  split at run
  · cases run
  · exact cut_counted run

end CodeAtlas.Chunk
