import CodeAtlas.Proofs.Chunk.Cut
import CodeAtlas.Proofs.List.Made
import Mathlib.Data.List.Basic

namespace CodeAtlas.Chunk

/-- The lines of a chunk, from the first to the last. -/
def span (chunk : Chunk) : Nat × Nat := (chunk.firstLine, chunk.lastLine)

/-- What the lines of a chunk say in the text it is cut from. -/
def wording (content : String) (chunk : Chunk) : List String :=
  ((Text.lines content).drop (chunk.firstLine - 1)).take chunk.lineCount

/-- Whether a chunk has nothing but blank lines of the text it is cut from. -/
def isBlank (content : String) (chunk : Chunk) : Bool :=
  (chunk.wording content).all Text.isBlankText

/-- The chunks cover every line of a text once and in order, each by as many lines as allowed and
with nothing but these lines after its header. -/
structure IsPartition (path content : String) (size : Nat) (chunks : List Chunk) : Prop where
  tiles : Tiles span 1 (Text.lines content).length chunks
  numbers : chunks.flatMap (fun chunk => List.range' chunk.firstLine chunk.lineCount) =
    List.range' 1 (Text.lines content).length
  sizes : ∀ chunk ∈ chunks, 1 ≤ chunk.lineCount ∧ chunk.lineCount ≤ size
  contents : ∀ chunk ∈ chunks,
    chunk.content = headerLabel ++ path ++ "\n" ++ Text.unlines (chunk.wording content)

variable {size : Nat} {path content : String} {symbols : List Declared}

/-- A chunk of some lines in one piece. -/
def IsPiece (lines : Array String) (path : String) (size : Nat) (chunk : Chunk) : Prop :=
  chunk.lastLine + 1 - chunk.firstLine ≤ size ∧
    ∃ symbol, chunk = ofLines lines path symbol chunk.span

theorem ofStretch?_tiles (lines : Array String) (path : String) {stretch : Stretch}
    (positive : 1 ≤ size) (countable : stretch.last + size < UInt64.size)
    (within : stretch.first ≤ stretch.last + 1) :
    ∃ chunks, ofStretch? ⟨size, false⟩ lines path stretch = some chunks ∧
      Tiles span stretch.first stretch.last chunks ∧
      ∀ chunk ∈ chunks, IsPiece lines path size chunk := by
  obtain ⟨windows, run, tiles, small⟩ := windows?_tiles positive countable within
  refine ⟨windows.map (ofLines lines path stretch.symbol), ?_, tiles.map fun _ => rfl, ?_⟩
  · simp [ofStretch?, run]
  · intro chunk member
    obtain ⟨window, inside, rfl⟩ := List.mem_map.mp member
    exact ⟨small window inside, stretch.symbol, rfl⟩

theorem cut_eq_ok_iff {options : ChunkOptions} {chunks : List Chunk} :
    cut options path content symbols = .ok chunks ↔
      ∃ pieces, (stretches (Text.lines content).length 1 (outermost symbols)).mapM
          (ofStretch? options (Text.lines content).toArray path) = some pieces ∧
        pieces.flatten = chunks := by
  unfold cut
  simp only [List.size_toArray]
  split
  · next pieces all => simp [all]
  · next none => simp [none]

theorem cut_tiles (path : String) (ordered : ∀ symbol ∈ symbols, symbol.firstLine ≤ symbol.lastLine)
    (positive : 1 ≤ size) (countable : (Text.lines content).length + size < UInt64.size) :
    ∃ chunks, cut ⟨size, false⟩ path content symbols = .ok chunks ∧
      Tiles span 1 (Text.lines content).length chunks ∧
      ∀ chunk ∈ chunks, IsPiece (Text.lines content).toArray path size chunk := by
  have outer : ∀ symbol ∈ outermost symbols, symbol.firstLine ≤ symbol.lastLine :=
    fun symbol member => ordered symbol (mem_of_mem_outermost member)
  have tiles : Tiles Stretch.span 1 (Text.lines content).length _ :=
    stretches_tiles (outermost symbols) outer 1 (by omega)
  have parts : ∀ stretch ∈ stretches (Text.lines content).length 1 (outermost symbols),
      ∃ chunks, ofStretch? ⟨size, false⟩ (Text.lines content).toArray path stretch = some chunks ∧
        Tiles span stretch.first stretch.last chunks ∧
        ∀ chunk ∈ chunks, IsPiece (Text.lines content).toArray path size chunk := by
    intro stretch member
    have inside := tiles.bounds member
    simp only [Stretch.span] at inside
    exact ofStretch?_tiles _ path positive (by omega) (by omega)
  obtain ⟨chunks, run, tiled, pieces⟩ := tiles.mapM parts
  exact ⟨chunks.flatten, cut_eq_ok_iff.mpr ⟨chunks, run, rfl⟩, tiled, pieces⟩

theorem extract_eq_wording {chunk : Chunk} (first : 1 ≤ chunk.firstLine)
    (nonempty : chunk.firstLine ≤ chunk.lastLine) :
    ((Text.lines content).toArray.extract (chunk.firstLine - 1) chunk.lastLine).toList =
      chunk.wording content := by
  have count : chunk.lastLine - (chunk.firstLine - 1) = chunk.lineCount := by
    unfold lineCount
    omega
  simp [wording, List.extract_eq_take_drop, count]

theorem IsPiece.content_eq {chunk : Chunk} (first : 1 ≤ chunk.firstLine)
    (nonempty : chunk.firstLine ≤ chunk.lastLine)
    (piece : IsPiece (Text.lines content).toArray path size chunk) :
    chunk.content = headerLabel ++ path ++ "\n" ++ Text.unlines (chunk.wording content) := by
  obtain ⟨_, symbol, same⟩ := piece
  rw [← extract_eq_wording first nonempty]
  exact congrArg Chunk.content same

theorem cut_isPartition (path : String)
    (ordered : ∀ symbol ∈ symbols, symbol.firstLine ≤ symbol.lastLine) (positive : 1 ≤ size)
    (countable : (Text.lines content).length + size < UInt64.size) :
    ∃ chunks, cut ⟨size, false⟩ path content symbols = .ok chunks ∧
      IsPartition path content size chunks := by
  obtain ⟨chunks, run, tiles, pieces⟩ := cut_tiles path ordered positive countable
  have counted : ∀ chunk ∈ chunks, chunk.lastLine + 1 - chunk.firstLine = chunk.lineCount := by
    intro chunk member
    have inside := tiles.bounds member
    simp only [span, lineCount] at inside ⊢
    omega
  refine ⟨chunks, run, tiles, ?_, ?_, ?_⟩
  · have numbers := tiles.flatMap_range
    rw [Nat.add_sub_cancel] at numbers
    rw [← numbers]
    exact List.flatMap_congr fun chunk member => by rw [← counted chunk member]; rfl
  · intro chunk member
    have small := (pieces chunk member).1
    rw [counted chunk member] at small
    exact ⟨Nat.le_add_left 1 _, small⟩
  · intro chunk member
    have inside := tiles.bounds member
    exact (pieces chunk member).content_eq inside.1 inside.2.1

/-- A stretch is cut at the same lines whether or not blank chunks are left out. -/
theorem ofStretch?_skipBlank (lines : Array String) (path : String) (stretch : Stretch) :
    ofStretch? ⟨size, true⟩ lines path stretch =
      (ofStretch? ⟨size, false⟩ lines path stretch).map
        (List.filter fun chunk => !isBlankWindow lines chunk.span) := by
  unfold ofStretch?
  rw [Option.map_map]
  congr 1
  funext windows
  simp [List.filter_map, Function.comp_def, ofLines, span]

theorem cut_skipBlank {chunks : List Chunk}
    (run : cut ⟨size, false⟩ path content symbols = .ok chunks) :
    cut ⟨size, true⟩ path content symbols =
      .ok (chunks.filter fun chunk => !isBlankWindow (Text.lines content).toArray chunk.span) := by
  obtain ⟨pieces, all, rfl⟩ := cut_eq_ok_iff.mp run
  refine cut_eq_ok_iff.mpr ⟨_, ?_, List.filter_flatten.symm⟩
  rw [funext (ofStretch?_skipBlank (Text.lines content).toArray path), mapM_map, all]
  rfl

theorem getElem_mem_wording {chunk : Chunk} {line : Nat} (first : 1 ≤ chunk.firstLine)
    (after : chunk.firstLine ≤ line + 1) (before : line + 1 ≤ chunk.lastLine)
    (inside : line < (Text.lines content).length) :
    (Text.lines content)[line] ∈ chunk.wording content := by
  apply List.mem_of_getElem? (i := line + 1 - chunk.firstLine)
  unfold wording lineCount
  rw [List.getElem?_take_of_lt (by omega), List.getElem?_drop,
    show chunk.firstLine - 1 + (line + 1 - chunk.firstLine) = line by omega]
  exact List.getElem?_eq_getElem inside

theorem filter_isBlank {chunks : List Chunk}
    (bounds : ∀ chunk ∈ chunks, 1 ≤ chunk.firstLine ∧ chunk.firstLine ≤ chunk.lastLine) :
    chunks.filter (fun chunk => !isBlankWindow (Text.lines content).toArray chunk.span) =
      chunks.filter fun chunk => !chunk.isBlank content := by
  apply List.filter_congr
  intro chunk member
  obtain ⟨first, nonempty⟩ := bounds chunk member
  simp only [isBlankWindow, isBlank, span, extract_eq_wording first nonempty]

theorem IsPartition.filter_isBlank {chunks : List Chunk}
    (partition : IsPartition path content size chunks) :
    chunks.filter (fun chunk => !isBlankWindow (Text.lines content).toArray chunk.span) =
      chunks.filter fun chunk => !chunk.isBlank content :=
  Chunk.filter_isBlank fun _ member =>
    ⟨(partition.tiles.bounds member).1, (partition.tiles.bounds member).2.1⟩

/-- A line that is not blank keeps its only chunk if those that are blank are left out. -/
theorem IsPartition.countP_containsLine {chunks : List Chunk}
    (partition : IsPartition path content size chunks) {line : Nat}
    (inside : line < (Text.lines content).length)
    (visible : ¬ Text.isBlankText (Text.lines content)[line]) :
    (chunks.filter fun chunk => !chunk.isBlank content).countP (·.containsLine (line + 1)) = 1 := by
  rw [List.countP_filter]
  refine partition.tiles.countP_eq_one ?_ (Nat.le_add_left 1 line) inside
  intro chunk member
  have bounds := partition.tiles.bounds member
  simp only [Bool.and_eq_true, containsLine, decide_eq_true_eq]
  refine and_iff_left_of_imp ?_
  rintro ⟨after, before⟩
  have member := getElem_mem_wording bounds.1 after before inside
  simp only [isBlank, Bool.not_eq_true', List.all_eq_false]
  exact ⟨_, member, visible⟩

/-- However declarations lie, over one another, twice or beyond the end, the chunks of a file are a
partition of its lines. Without the blank ones they are the same chunks but for these, and each line
that is not blank is in one of them. The lines of a file that fits in memory and any size of at most
63 bits add up to a number of 64 bits. -/
theorem cut_partition (path content : String) (symbols : List Declared) (size : Nat)
    (ordered : ∀ symbol ∈ symbols, symbol.firstLine ≤ symbol.lastLine) (positive : 1 ≤ size)
    (countable : (Text.lines content).length + size < UInt64.size) :
    ∃ chunks, cut ⟨size, false⟩ path content symbols = .ok chunks ∧
      IsPartition path content size chunks ∧
      ∃ kept, cut ⟨size, true⟩ path content symbols = .ok kept ∧
        kept = chunks.filter (fun chunk => !chunk.isBlank content) ∧
        ∀ line (inside : line < (Text.lines content).length),
          ¬ Text.isBlankText (Text.lines content)[line] →
            kept.countP (·.containsLine (line + 1)) = 1 := by
  obtain ⟨chunks, run, partition⟩ := cut_isPartition path ordered positive countable
  have skipped := cut_skipBlank run
  rw [partition.filter_isBlank] at skipped
  exact ⟨chunks, run, partition, _, skipped, rfl, fun _ => partition.countP_containsLine⟩

/-- A method in a class, a declaration that begins in the class and ends after it, and one that is
beyond the end. -/
theorem cut_partition_overlapping :
    let content := "class A\n  run()\n\nend\n\nrun()\n"
    let symbols : List Declared :=
      [⟨"A.run", .function, 2, 2, false⟩, ⟨"A", .classDecl, 1, 4, true⟩,
        ⟨"b", .function, 3, 5, false⟩, ⟨"c", .function, 9, 12, false⟩]
    ∃ chunks, cut ⟨2, false⟩ "src/a.ts" content symbols = .ok chunks ∧
      IsPartition "src/a.ts" content 2 chunks :=
  let ⟨chunks, run, partition, _⟩ := cut_partition "src/a.ts" "class A\n  run()\n\nend\n\nrun()\n"
    [⟨"A.run", .function, 2, 2, false⟩, ⟨"A", .classDecl, 1, 4, true⟩,
      ⟨"b", .function, 3, 5, false⟩, ⟨"c", .function, 9, 12, false⟩] 2
    (by decide) (by decide) (by decide)
  ⟨chunks, run, partition⟩

end CodeAtlas.Chunk
