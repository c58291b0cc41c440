import CodeAtlas.Chunk.Cut
import CodeAtlas.Proofs.Chunk.Tiles

namespace CodeAtlas.Chunk

theorem maxLines_pos {options : ChunkOptions} (sound : options.check = .ok ()) :
    1 ≤ options.maxLines := by
  unfold ChunkOptions.check at sound
  split at sound
  · cases sound
  · omega

theorem windowEnd?_eq_some {first size : Nat} (positive : 1 ≤ size)
    (countable : first + size < UInt64.size) : windowEnd? first size = some (first + size - 1) :=
  if_pos ⟨positive, countable⟩

theorem of_windowEnd? {first size stop : Nat} (counted : windowEnd? first size = some stop) :
    1 ≤ size ∧ first + size < UInt64.size ∧ stop = first + size - 1 := by
  unfold windowEnd? at counted
  split at counted
  · next fits => exact ⟨fits.1, fits.2, (Option.some.inj counted).symm⟩
  · cases counted

/-- Windows that can be counted follow one another. -/
theorem windowsUpTo?_spans {size last count first : Nat} {windows : List (Nat × Nat)}
    (run : windowsUpTo? size last count first = some windows) (enough : last + 1 ≤ first + count)
    (within : first ≤ last + 1) : Tiles (fun window => window) first last windows := by
  induction count generalizing first windows with
  | zero =>
    obtain rfl := Option.some.inj run
    obtain rfl : first = last + 1 := by omega
    exact .done last
  | succ count ih =>
    unfold windowsUpTo? at run
    by_cases past : last < first
    · rw [if_pos past] at run
      obtain rfl := Option.some.inj run
      obtain rfl : first = last + 1 := by omega
      exact .done last
    · rw [if_neg past] at run
      obtain ⟨stop, ends, run⟩ := Option.bind_eq_some_iff.mp run
      obtain ⟨rest, counted, rfl⟩ := Option.map_eq_some_iff.mp run
      have nonempty : first ≤ min stop last := by
        have := of_windowEnd? ends
        omega
      exact .next rfl nonempty (ih counted (by dsimp only; omega) (by dsimp only; omega))

theorem windowsUpTo?_tiles {size last : Nat} (positive : 1 ≤ size)
    (countable : last + size < UInt64.size) (count first : Nat) (enough : last + 1 ≤ first + count)
    (within : first ≤ last + 1) :
    ∃ windows, windowsUpTo? size last count first = some windows ∧
      Tiles (fun window => window) first last windows ∧
      ∀ window ∈ windows, window.2 + 1 - window.1 ≤ size := by
  suffices counted : ∃ windows, windowsUpTo? size last count first = some windows ∧
      ∀ window ∈ windows, window.2 + 1 - window.1 ≤ size by
    obtain ⟨windows, run, small⟩ := counted
    exact ⟨windows, run, windowsUpTo?_spans run enough within, small⟩
  induction count generalizing first with
  | zero => exact ⟨[], rfl, by simp⟩
  | succ count ih =>
    unfold windowsUpTo?
    by_cases past : last < first
    · exact ⟨[], if_pos past, by simp⟩
    · rw [if_neg past, windowEnd?_eq_some positive (by omega), Option.bind_some]
      obtain ⟨windows, run, small⟩ :=
        ih (min (first + size - 1) last + 1) (by omega) (by omega)
      refine ⟨(first, min (first + size - 1) last) :: windows, ?_, ?_⟩
      · rw [run]
        rfl
      · intro window member
        rcases List.mem_cons.mp member with rfl | later
        · simp only; omega
        · exact small window later

theorem windows?_tiles {size first last : Nat} (positive : 1 ≤ size)
    (countable : last + size < UInt64.size) (within : first ≤ last + 1) :
    ∃ windows, windows? size first last = some windows ∧
      Tiles (fun window => window) first last windows ∧
      ∀ window ∈ windows, window.2 + 1 - window.1 ≤ size :=
  windowsUpTo?_tiles positive countable _ _ (by omega) within

/-- The lines of a stretch, from the first to the last. -/
def Stretch.span (stretch : Stretch) : Nat × Nat := (stretch.first, stretch.last)

/-- Whatever declarations there are and in what order, the stretches leave no line out. Where a
declaration begins before the next line, it is passed over as a whole. -/
theorem stretches_tiles {count : Nat} (symbols : List Declared)
    (ordered : ∀ symbol ∈ symbols, symbol.firstLine ≤ symbol.lastLine) (next : Nat)
    (within : next ≤ count + 1) : Tiles Stretch.span next count (stretches count next symbols) := by
  induction symbols generalizing next with
  | nil =>
    unfold stretches
    split
    · next nonempty => exact .next rfl nonempty (.done count)
    · obtain rfl : next = count + 1 := by omega
      exact .done count
  | cons symbol rest ih =>
    have order := ordered symbol (List.mem_cons_self ..)
    have restOrdered : ∀ other ∈ rest, other.firstLine ≤ other.lastLine :=
      fun other member => ordered other (List.mem_cons_of_mem _ member)
    unfold stretches
    split
    · exact ih restOrdered next within
    · next inside =>
      have later := ih restOrdered (min symbol.lastLine count + 1) (by omega)
      have here : Tiles Stretch.span symbol.firstLine count
          (⟨symbol.firstLine, min symbol.lastLine count, some (symbol.kind, symbol.name)⟩ ::
            stretches count (min symbol.lastLine count + 1) rest) :=
        .next rfl (by simp only [Stretch.span]; omega) later
      dsimp only
      split
      · next gap =>
        refine .next rfl (by simp only [Stretch.span]; omega) ?_
        rwa [show (Stretch.span ⟨next, symbol.firstLine - 1, none⟩).2 + 1 = symbol.firstLine by
          simp only [Stretch.span]; omega]
      · obtain rfl : next = symbol.firstLine := by omega
        exact here

theorem mem_of_mem_outermost {symbols : List Declared} {symbol : Declared}
    (member : symbol ∈ outermost symbols) : symbol ∈ symbols := by
  have kept : ∀ (sorted kept : List Declared), symbol ∈ sorted.foldl keepOuter kept →
      symbol ∈ kept ∨ symbol ∈ sorted := by
    intro sorted
    induction sorted with
    | nil => exact fun kept member => Or.inl member
    | cons other sorted ih =>
      intro kept member
      rcases ih _ member with old | later
      · unfold keepOuter at old
        split at old
        · split at old
          · exact Or.inl old
          · rcases List.mem_append.mp old with old | new
            · exact Or.inl old
            · exact Or.inr (List.mem_cons.mpr (Or.inl (List.mem_singleton.mp new)))
        · exact Or.inr (List.mem_cons.mpr (Or.inl (List.mem_singleton.mp old)))
      · exact Or.inr (List.mem_cons_of_mem _ later)
  rcases kept _ _ member with nothing | sorted
  · cases nothing
  · exact List.mem_mergeSort.mp sorted

end CodeAtlas.Chunk
