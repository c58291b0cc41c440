import CodeAtlas.Proofs.Chunk.Outermost
import CodeAtlas.Proofs.Chunk.Partition

namespace CodeAtlas.Chunk

open Declared (Nested)

variable {symbols kept : List Declared} {count next size : Nat} {stretch : Stretch}

/-- What a stretch is, if a file of `count` lines is cut along declarations. -/
inductive IsStretch (count : Nat) (kept : List Declared) : Stretch → Prop
  | symbol {symbol : Declared} : symbol ∈ kept → symbol.firstLine ≤ count →
      IsStretch count kept
        ⟨symbol.firstLine, min symbol.lastLine count, some (symbol.kind, symbol.name)⟩
  /-- Lines of no declaration, as many as there are. -/
  | gap {first last : Nat} :
      (∀ symbol ∈ kept, ∀ line, first ≤ line → line ≤ last → ¬symbol.Covers line) →
      (last = count ∨ ∃ symbol ∈ kept, symbol.Covers (last + 1)) →
      IsStretch count kept ⟨first, last, none⟩

/-- One more declaration in front does not matter to what comes after its lines in the file. -/
theorem IsStretch.cons {symbol : Declared} (piece : IsStretch count kept stretch)
    (after : symbol.lastLine < stretch.first ∨ count < symbol.firstLine)
    (within : stretch.last ≤ count) : IsStretch count (symbol :: kept) stretch := by
  cases piece with
  | symbol member inside => exact .symbol (List.mem_cons_of_mem _ member) inside
  | gap free ends =>
    refine .gap (List.forall_mem_cons.mpr ⟨fun line lower upper covers => ?_, free⟩) ?_
    · simp only [Declared.Covers] at covers after within
      omega
    · rcases ends with whole | ⟨other, member, covers⟩
      · exact .inl whole
      · exact .inr ⟨other, List.mem_cons_of_mem _ member, covers⟩

/-- No declaration is passed over if they are apart and in order. -/
theorem isStretch_of_mem (lines : ∀ symbol ∈ kept, symbol.firstLine ≤ symbol.lastLine)
    (apart : kept.Pairwise Declared.Precedes) (ahead : ∀ symbol ∈ kept, next ≤ symbol.firstLine)
    (within : next ≤ count + 1) (member : stretch ∈ stretches count next kept) :
    IsStretch count kept stretch := by
  induction kept generalizing next with
  | nil =>
    unfold stretches at member
    split at member
    · obtain rfl := List.mem_singleton.mp member
      exact .gap (List.forall_mem_nil _) (.inl rfl)
    · cases member
  | cons symbol rest ih =>
    obtain ⟨before, apart⟩ := List.pairwise_cons.mp apart
    obtain ⟨line, lines⟩ := List.forall_mem_cons.mp lines
    obtain ⟨here, ahead⟩ := List.forall_mem_cons.mp ahead
    have tiles (start : Nat) (within : start ≤ count + 1)
        (member : stretch ∈ stretches count start rest) :
        start ≤ stretch.first ∧ stretch.first ≤ stretch.last ∧ stretch.last ≤ count :=
      (stretches_tiles rest lines start within).bounds member
    unfold stretches at member
    split at member
    · next skipped =>
      have beyond : count < symbol.firstLine := skipped.resolve_left (Nat.not_lt.mpr here)
      exact (ih lines apart ahead within member).cons (.inr beyond) (tiles next within member).2.2
    · next inside =>
      have inFile : symbol.firstLine ≤ count := Nat.not_lt.mp (not_or.mp inside).2
      rcases List.mem_append.mp member with gap | piece
      · split at gap
        · next space =>
          obtain rfl := List.mem_singleton.mp gap
          have starts : symbol.firstLine - 1 + 1 = symbol.firstLine := by omega
          refine .gap (List.forall_mem_cons.mpr ⟨?_, fun other listed => ?_⟩) (.inr ?_)
          · rintro line lower upper ⟨covers, _⟩
            omega
          · rintro line lower upper ⟨covers, _⟩
            have later : symbol.lastLine < other.firstLine := before other listed
            omega
          · rw [starts]
            exact ⟨symbol, List.mem_cons_self, Nat.le_refl _, line⟩
        · cases gap
      · rcases List.mem_cons.mp piece with rfl | later
        · exact .symbol List.mem_cons_self inFile
        · have beyond : min symbol.lastLine count + 1 ≤ count + 1 := by omega
          have ahead' : ∀ other ∈ rest, min symbol.lastLine count + 1 ≤ other.firstLine := by
            intro other listed
            have later : symbol.lastLine < other.firstLine := before other listed
            omega
          have bounds := tiles _ beyond later
          exact (ih lines apart ahead' beyond later).cons (.inl (by omega)) bounds.2.2

/-- A window that does not reach the end has as many lines as allowed. -/
theorem windowsUpTo?_full {last first : Nat} {windows : List (Nat × Nat)} (positive : 1 ≤ size)
    (countable : last + size < UInt64.size)
    (run : windowsUpTo? size last count first = some windows) :
    ∀ window ∈ windows, window.2 = last ∨ window.2 + 1 - window.1 = size := by
  induction count generalizing first windows with
  | zero =>
    obtain rfl := Option.some.inj run
    exact fun _ nothing => nomatch nothing
  | succ count ih =>
    unfold windowsUpTo? at run
    by_cases past : last < first
    · rw [if_pos past] at run
      obtain rfl := Option.some.inj run
      exact fun _ nothing => nomatch nothing
    · rw [if_neg past, windowEnd?_eq_some positive (by omega), Option.bind_some] at run
      obtain ⟨rest, counted, rfl⟩ := Option.map_eq_some_iff.mp run
      refine List.forall_mem_cons.mpr ⟨?_, ih counted⟩
      dsimp only
      omega

/-- A chunk is a part of a stretch; unless it is the last part, it has as many lines as allowed. -/
structure IsPartOf (size : Nat) (stretch : Stretch) (chunk : Chunk) : Prop where
  symbol : chunk.symbol = stretch.symbol
  first : stretch.first ≤ chunk.firstLine
  last : chunk.lastLine ≤ stretch.last
  full : chunk.lastLine = stretch.last ∨ chunk.lastLine + 1 - chunk.firstLine = size

theorem isPartOf_of_mem {lines : Array String} {path : String} {chunks : List Chunk} {chunk : Chunk}
    (positive : 1 ≤ size) (countable : stretch.last + size < UInt64.size)
    (within : stretch.first ≤ stretch.last + 1)
    (run : ofStretch? ⟨size, false⟩ lines path stretch = some chunks) (member : chunk ∈ chunks) :
    IsPartOf size stretch chunk := by
  obtain ⟨windows, counted, rfl⟩ := Option.map_eq_some_iff.mp run
  obtain ⟨window, kept, rfl⟩ := List.mem_map.mp member
  have listed := (List.mem_filter.mp kept).1
  have bounds := (windowsUpTo?_spans counted (by omega) within).bounds listed
  exact ⟨rfl, bounds.1, bounds.2.2, windowsUpTo?_full positive countable counted window listed⟩

variable {path content : String} {chunks : List Chunk} {chunk : Chunk} {line : Nat}

/-- What a chunk with a line says of the declaration that the line belongs to. Only the last chunk of a
declaration, or of what lies between declarations, has fewer lines than allowed. -/
inductive IsAttributed (symbols : List Declared) (count size : Nat) (chunk : Chunk) (line : Nat) : Prop
  | symbol {symbol : Declared} :
      IsOutermostAt line symbols symbol → chunk.symbol = some (symbol.kind, symbol.name) →
      symbol.firstLine ≤ chunk.firstLine → chunk.lastLine ≤ symbol.lastLine →
      (chunk.lastLine = min symbol.lastLine count ∨ chunk.lineCount = size) →
      IsAttributed symbols count size chunk line
  | free :
      (∀ symbol ∈ symbols, ¬symbol.Covers line) → chunk.symbol = none →
      (chunk.lastLine = count ∨ (∃ symbol ∈ symbols, symbol.Covers (chunk.lastLine + 1)) ∨
        chunk.lineCount = size) →
      IsAttributed symbols count size chunk line

theorem IsPartOf.isAttributed (part : IsPartOf size stretch chunk) (keeps : KeepsOuter symbols kept)
    (piece : IsStretch count kept stretch) (nonempty : chunk.firstLine ≤ chunk.lastLine)
    (inside : chunk.containsLine line = true) : IsAttributed symbols count size chunk line := by
  have lines : chunk.firstLine ≤ line ∧ line ≤ chunk.lastLine := by simpa [containsLine] using inside
  have counted : chunk.lineCount = chunk.lastLine + 1 - chunk.firstLine := by
    unfold lineCount
    omega
  obtain ⟨named, first, last, full⟩ := part
  rw [← counted] at full
  cases piece with
  | @symbol outer member inFile =>
    have ends : chunk.lastLine ≤ outer.lastLine := Nat.le_trans last (Nat.min_le_left ..)
    have covers : outer.Covers line := ⟨Nat.le_trans first lines.1, Nat.le_trans lines.2 ends⟩
    exact .symbol (keeps.isOutermostAt member covers) named first ends full
  | gap free next =>
    refine .free (fun symbol member covers => ?_) named ?_
    · obtain ⟨outer, isKept, spans⟩ := keeps.spanned symbol member
      exact free outer isKept line (Nat.le_trans first lines.1) (Nat.le_trans lines.2 last)
        ⟨Nat.le_trans spans.1 covers.1, Nat.le_trans covers.2 spans.2⟩
    · rcases full with whole | full
      · rcases next with atEnd | ⟨outer, member, covers⟩
        · exact .inl (whole.trans atEnd)
        · exact .inr (.inl ⟨outer, keeps.mem_seen member, whole ▸ covers⟩)
      · exact .inr (.inr full)

/-- Each chunk of a file is a part of one of the stretches that the file consists of. -/
theorem exists_stretch_of_mem_cut (nested : Nested symbols) (positive : 1 ≤ size)
    (countable : (Text.lines content).length + size < UInt64.size)
    (run : cut ⟨size, false⟩ path content symbols = .ok chunks) (member : chunk ∈ chunks) :
    ∃ stretch, IsStretch (Text.lines content).length (outermost symbols) stretch ∧
      IsPartOf size stretch chunk := by
  have keeps := keepsOuter_outermost nested
  have lines : ∀ symbol ∈ outermost symbols, 1 ≤ symbol.firstLine ∧ symbol.firstLine ≤ symbol.lastLine :=
    fun symbol listed => nested.lines symbol (keeps.mem_seen listed)
  have ordered : ∀ symbol ∈ outermost symbols, symbol.firstLine ≤ symbol.lastLine :=
    fun symbol listed => (lines symbol listed).2
  obtain ⟨pieces, made, rfl⟩ := cut_eq_ok_iff.mp run
  obtain ⟨piece, listed, inside⟩ := List.mem_flatten.mp member
  obtain ⟨stretch, among, cutOut⟩ := exists_of_mem_mapM made listed
  have bounds := (stretches_tiles _ ordered 1 (Nat.le_add_left ..)).bounds among
  simp only [Stretch.span] at bounds
  refine ⟨stretch, ?_, isPartOf_of_mem positive (by omega) (by omega) cutOut inside⟩
  exact isStretch_of_mem ordered keeps.apart (fun symbol listed => (lines symbol listed).1)
    (Nat.le_add_left ..) among

theorem cut_skip (path : String) (ordered : ∀ symbol ∈ symbols, symbol.firstLine ≤ symbol.lastLine)
    (positive : 1 ≤ size) (countable : (Text.lines content).length + size < UInt64.size)
    (skipBlank : Bool) :
    ∃ chunks, cut ⟨size, false⟩ path content symbols = .ok chunks ∧
      IsPartition path content size chunks ∧
      cut ⟨size, skipBlank⟩ path content symbols =
        .ok (chunks.filter fun chunk => !(skipBlank && chunk.isBlank content)) := by
  obtain ⟨chunks, run, partition⟩ := cut_isPartition path ordered positive countable
  refine ⟨chunks, run, partition, ?_⟩
  cases skipBlank with
  | false => simpa using run
  | true =>
    rw [cut_skipBlank run, partition.filter_isBlank]
    rfl

/-- Where any two declarations are apart or nested, in whatever order they are listed, the lines of a
file are cut so that the chunk of a line names the outermost declaration around it, the first of the
list if several have its lines, and stays in this one; the chunk of a line in no declaration names none.
If blank chunks are left out, nothing else is. The lines of a file that fits in memory and any size of
at most 63 bits add up to a number of 64 bits. -/
theorem cut_attributes (path content : String) (size : Nat) (skipBlank : Bool)
    (nested : Nested symbols) (positive : 1 ≤ size)
    (countable : (Text.lines content).length + size < UInt64.size) :
    ∃ chunks, IsPartition path content size chunks ∧
      cut ⟨size, skipBlank⟩ path content symbols =
        .ok (chunks.filter fun chunk => !(skipBlank && chunk.isBlank content)) ∧
      (∀ line, 1 ≤ line → line ≤ (Text.lines content).length →
        ∃ chunk ∈ chunks, chunk.containsLine line = true) ∧
      ∀ chunk ∈ chunks, ∀ line, chunk.containsLine line = true →
        IsAttributed symbols (Text.lines content).length size chunk line := by
  obtain ⟨chunks, run, partition, kept⟩ := cut_skip path
    (fun symbol member => (nested.lines symbol member).2) positive countable skipBlank
  refine ⟨chunks, partition, kept, fun line first last => ?_, fun chunk member line inside => ?_⟩
  · have inSpan : ∀ chunk ∈ chunks, chunk.containsLine line = true ↔
        (span chunk).1 ≤ line ∧ line ≤ (span chunk).2 :=
      fun chunk _ => by simp [containsLine, span]
    have once := partition.tiles.countP_eq_one inSpan first last
    exact List.countP_pos_iff.mp (once ▸ Nat.one_pos)
  · obtain ⟨stretch, piece, part⟩ := exists_stretch_of_mem_cut nested positive countable run member
    exact part.isAttributed (keepsOuter_outermost nested) piece (partition.tiles.bounds member).2.1
      inside

/-- A method, its class twice, under another name the second time, and a function that goes on beyond the
end. -/
theorem cut_attributes_class :
    let content := "class A\n  run()\n\nend\n\nrun()\n"
    let symbols : List Declared :=
      [⟨"b", .function, 6, 9, false⟩, ⟨"A.run", .function, 2, 3, false⟩, ⟨"A", .classDecl, 1, 4, true⟩,
        ⟨"B", .variableDecl, 1, 4, true⟩]
    Nested symbols ∧ ∃ chunks, IsPartition "src/a.ts" content 3 chunks ∧
      chunks.map (fun chunk => (chunk.span, chunk.symbol)) =
        [((1, 3), some (.classDecl, "A")), ((4, 4), some (.classDecl, "A")), ((5, 5), none),
          ((6, 6), some (.function, "b"))] ∧
      ∀ chunk ∈ chunks, ∀ line, chunk.containsLine line = true →
        IsAttributed symbols 6 3 chunk line := by
  intro content symbols
  have nested : Nested symbols := ⟨by decide, by decide⟩
  obtain ⟨chunks, partition, run, _, attributed⟩ :=
    cut_attributes "src/a.ts" content 3 false nested (by decide) (by decide)
  have kept : outermost symbols = [⟨"A", .classDecl, 1, 4, true⟩, ⟨"b", .function, 6, 9, false⟩] := by
    simp [symbols, outermost, List.mergeSort, List.MergeSort.Internal.splitInTwo, startsBefore,
      keepOuter]
  have seen : (cut ⟨3, false⟩ "src/a.ts" content symbols).toOption.map
      (List.map fun chunk => (chunk.span, chunk.symbol)) =
        some [((1, 3), some (.classDecl, "A")), ((4, 4), some (.classDecl, "A")), ((5, 5), none),
          ((6, 6), some (.function, "b"))] := by
    rw [cut, kept]
    decide +kernel
  have count : (Text.lines content).length = 6 := by decide
  have all : chunks.filter (fun chunk => !(false && chunk.isBlank content)) = chunks := by simp
  rw [run, all] at seen
  rw [count] at attributed
  exact ⟨nested, chunks, partition, Option.some.inj seen, attributed⟩

end CodeAtlas.Chunk
