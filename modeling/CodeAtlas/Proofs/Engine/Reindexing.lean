import CodeAtlas.Proofs.Engine.Indexing
import Mathlib.Data.List.Forall2

namespace CodeAtlas.Engine

variable {options : ChunkOptions} {read : String → Reading} {path : String} {paths : List String}

/-- The records of a file. -/
def recordsOf (records : List IndexRecord) (path : String) : List IndexRecord :=
  records.filter (·.path? == some path)

/-- The chunks of a file as it reads now. One that is left out has none. -/
def chunksNow (options : ChunkOptions) (read : String → Reading) (path : String) : List Chunk :=
  (chunksOf options read path).toOption.getD []

/-- The files that are not left out. -/
def indexable (options : ChunkOptions) (read : String → Reading) (paths : List String) :
    List String :=
  paths.filter fun path => (chunksOf options read path).isOk

/-- Whether a record goes when files are indexed. -/
def isReplaced (paths : List String) (record : IndexRecord) : Bool :=
  paths.any fun path => record.id.startsWith (recordStart path)

theorem recordsOf_append (records others : List IndexRecord) (path : String) :
    recordsOf (records ++ others) path = recordsOf records path ++ recordsOf others path :=
  List.filter_append ..

theorem recordsOf_filter (keep : IndexRecord → Bool) (records : List IndexRecord) (path : String) :
    recordsOf (records.filter keep) path = (recordsOf records path).filter keep :=
  List.filter_comm ..

theorem isReplaced_append (paths : List String) (path : String) (record : IndexRecord) :
    isReplaced (paths ++ [path]) record =
      (isReplaced paths record || record.id.startsWith (recordStart path)) := by
  simp [isReplaced]

theorem chunksOf_pairwise {chunks : List Chunk} (cut : chunksOf options read path = .ok chunks) :
    (chunks.map Chunk.id).Nodup ∧ ∀ chunk ∈ chunks, chunk.path = path := by
  unfold chunksOf at cut
  split at cut
  · cases cut
  · split at cut
    · next made =>
      obtain rfl := Except.ok.inj cut
      exact ⟨Chunk.nodup_ids made, (Chunk.ofSource_pairwise made).2⟩
    · obtain rfl := Except.ok.inj cut
      exact ⟨.nil, fun _ nothing => nomatch nothing⟩
    · cases cut
    · cases cut

theorem Indexing.isOf_fresh (indexing : Indexing) (clock : Nat → Nat) (chunks : List Chunk) :
    List.Forall₂ IndexRecord.IsOf
      (List.zipWith IndexRecord.ofChunk chunks
        (indexing.engine.embedder.embedDuring clock (chunks.map (·.content))).1) chunks := by
  have shape := (indexing.engine.embedder.embedDuring_shape clock (chunks.map (·.content))).1
  rw [List.length_map] at shape
  exact IndexRecord.zipWith_ofChunk shape

/-- The new records of a file come after all that are left when those it had are gone. -/
theorem Indexing.takeChunks_records {clock : Nat → Nat} {indexing after : Indexing}
    {chunks : List Chunk} (distinct : (chunks.map Chunk.id).Nodup)
    (own : ∀ chunk ∈ chunks, chunk.path = path)
    (taken : indexing.takeChunks clock path chunks = (.ok (), after)) :
    after.engine.retriever.index.records =
      indexing.engine.retriever.index.records.filter
        (fun record => !record.id.startsWith (recordStart path)) ++
      List.zipWith IndexRecord.ofChunk chunks
        (indexing.engine.embedder.embedDuring clock (chunks.map (·.content))).1 := by
  unfold takeChunks at taken
  split at taken
  · next none =>
    obtain rfl := List.isEmpty_iff.mp none
    obtain rfl := (Prod.mk.inj taken).2
    exact (List.append_nil _).symm
  · dsimp only at taken
    split at taken
    · next index inserted =>
      obtain rfl := (Prod.mk.inj taken).2
      have fresh := indexing.isOf_fresh clock chunks
      have ids := IndexRecord.map_id_of_isOf fresh
      refine VectorIndex.records_insertMany inserted ?_ (ids ▸ distinct)
      intro record member known
      obtain ⟨chunk, made, same, _⟩ := IndexRecord.exists_of_mem fresh member
      obtain ⟨other, kept, same'⟩ := List.mem_map.mp known
      have starts : other.id.startsWith (recordStart path) = true := by
        rw [same', same, ← own chunk made]
        exact chunk.id_startsWith
      have stays := (List.mem_filter.mp kept).2
      simp [starts] at stays
    · cases taken

theorem own_of_mem_chunksNow {chunk : Chunk} (member : chunk ∈ chunksNow options read path) :
    chunk.path = path := by
  unfold chunksNow at member
  cases cut : chunksOf options read path with
  | error => rw [cut] at member; cases member
  | ok chunks =>
    rw [cut] at member
    exact (chunksOf_pairwise cut).2 chunk member

section Fresh

variable {records : List IndexRecord} {chunks : List Chunk} {file : String}
  (fresh : List.Forall₂ IndexRecord.IsOf records chunks) (own : ∀ chunk ∈ chunks, chunk.path = file)

include fresh own

theorem recordsOf_fresh : recordsOf records path = if file = path then records else [] := by
  have paths : ∀ record ∈ records, record.path? = some file := by
    intro record member
    obtain ⟨chunk, listed, _, said⟩ := IndexRecord.exists_of_mem fresh member
    rw [said, own chunk listed]
  unfold recordsOf
  split
  · next same => exact List.filter_eq_self.mpr fun record member => by simp [paths record member, same]
  · next other => exact List.filter_eq_nil_iff.mpr fun record member => by simp [paths record member, other]

/-- Of the new records of a file those go that belong to a file that is indexed next. -/
theorem filter_fresh (plain : ':' ∉ path.toList) (plain' : ':' ∉ file.toList) :
    records.filter (fun record => !record.id.startsWith (recordStart path)) =
      if file = path then [] else records := by
  split
  · next same =>
    refine List.filter_eq_nil_iff.mpr fun record member => ?_
    obtain ⟨chunk, listed, keyed, _⟩ := IndexRecord.exists_of_mem fresh member
    have starts : record.id.startsWith (recordStart path) = true := by
      rw [keyed, ← same, ← own chunk listed]
      exact chunk.id_startsWith
    simp [starts]
  · next other =>
    refine List.filter_eq_self.mpr fun record member => ?_
    obtain ⟨chunk, listed, keyed, _⟩ := IndexRecord.exists_of_mem fresh member
    have begins : record.id.startsWith (recordStart file) = true := by
      rw [keyed, ← own chunk listed]
      exact chunk.id_startsWith
    have apart : ¬ record.id.startsWith (recordStart path) = true :=
      fun starts => other (Text.colon_start_unique plain' plain begins starts)
    simp [apart]

end Fresh

/-- What files that were indexed leave of the records of a file: those that they did not replace, and
then the chunks of the file, if it was indexed itself. -/
def Follows (options : ChunkOptions) (read : String → Reading) (path : String)
    (before : List IndexRecord) (paths : List String) (after : List IndexRecord) : Prop :=
  ∃ fresh, List.Forall₂ IndexRecord.IsOf fresh
      (if path ∈ indexable options read paths then chunksNow options read path else []) ∧
    recordsOf after path =
      (recordsOf before path).filter (fun record => !isReplaced (indexable options read paths) record)
        ++ fresh

theorem follows_start (before : List IndexRecord) : Follows options read path before [] before :=
  ⟨[], .nil, by simp [indexable, isReplaced]⟩

variable {clock : Nat → Nat} {indexing after : Indexing} {before : List IndexRecord} {file : String}

/-- The records of a file after one more was indexed: those that this replaces are gone, and if it is
the file itself its chunks are new. -/
theorem recordsOf_takeChunks {chunks : List Chunk} {old : List IndexRecord} {goes : IndexRecord → Bool}
    (plain : ':' ∉ path.toList) (plain' : ':' ∉ file.toList)
    (cut : chunksOf options read file = .ok chunks)
    (oldMatch : List.Forall₂ IndexRecord.IsOf old
      (if path ∈ paths then chunksNow options read path else []))
    (oldRecords : recordsOf indexing.engine.retriever.index.records path =
      (recordsOf before path).filter (fun record => !goes record) ++ old)
    (taken : indexing.takeChunks clock file chunks = (.ok (), after)) :
    ∃ fresh, List.Forall₂ IndexRecord.IsOf fresh chunks ∧
      recordsOf after.engine.retriever.index.records path =
        (recordsOf before path).filter
          (fun record => !(goes record || record.id.startsWith (recordStart file))) ++
        ((if path = file then [] else old) ++ if file = path then fresh else []) := by
  obtain ⟨distinct, own⟩ := chunksOf_pairwise cut
  have records := Indexing.takeChunks_records distinct own taken
  have freshMatch := indexing.isOf_fresh clock chunks
  have oldOwn : ∀ chunk ∈ (if path ∈ paths then chunksNow options read path else []),
      chunk.path = path := by
    intro chunk member
    split at member
    · exact own_of_mem_chunksNow member
    · cases member
  refine ⟨_, freshMatch, ?_⟩
  rw [records, recordsOf_append, recordsOf_filter, oldRecords, List.filter_append,
    filter_fresh oldMatch oldOwn plain' plain, recordsOf_fresh freshMatch own, List.filter_filter,
    List.append_assoc]
  simp only [Bool.not_or, Bool.and_comm]

/-- Indexing one more file. -/
theorem Follows.take (config : indexing.engine.config.chunks = options) (plain : ':' ∉ path.toList)
    (plain' : ':' ∉ file.toList)
    (follows : Follows options read path before paths indexing.engine.retriever.index.records)
    (taken : indexing.take clock read file = (.ok (), after)) :
    Follows options read path before (paths ++ [file]) after.engine.retriever.index.records := by
  obtain ⟨old, oldMatch, oldRecords⟩ := follows
  unfold Indexing.take at taken
  rw [config] at taken
  split at taken
  · next chunks cut =>
    have more : indexable options read (paths ++ [file]) = indexable options read paths ++ [file] := by
      simp [indexable, cut, Except.isOk, Except.toBool]
    obtain ⟨fresh, freshMatch, left⟩ :=
      recordsOf_takeChunks plain plain' cut oldMatch oldRecords taken
    simp only [← isReplaced_append] at left
    rw [← more] at left
    by_cases same : file = path
    · subst same
      rw [if_pos rfl, if_pos rfl, List.nil_append] at left
      refine ⟨fresh, ?_, left⟩
      have now : chunksNow options read file = chunks := by
        simp [chunksNow, cut, Except.toOption]
      rw [if_pos (by simp [more]), now]
      exact freshMatch
    · rw [if_neg (Ne.symm same), if_neg same, List.append_nil] at left
      refine ⟨old, ?_, left⟩
      have still : path ∈ indexable options read (paths ++ [file]) ↔
          path ∈ indexable options read paths := by
        simp [more, Ne.symm same]
      simp only [still]
      exact oldMatch
  · next reason cut =>
    obtain rfl := (Prod.mk.inj taken).2
    have more : indexable options read (paths ++ [file]) = indexable options read paths := by
      simp [indexable, cut, Except.isOk, Except.toBool]
    refine ⟨old, ?_⟩
    rw [more]
    exact ⟨oldMatch, oldRecords⟩
  · cases taken

theorem Follows.takeAll {clock : Nat → Nat → Nat} {i : Nat} {files : List String}
    (config : indexing.engine.config.chunks = options) (plain : ':' ∉ path.toList)
    (plains : ∀ file ∈ files, ':' ∉ (Path.normalize file).toList)
    (follows : Follows options read path before paths indexing.engine.retriever.index.records)
    (taken : Indexing.takeAll clock read i files indexing = (.ok (), after)) :
    Follows options read path before (paths ++ files.map Path.normalize)
      after.engine.retriever.index.records := by
  induction files generalizing i paths indexing with
  | nil =>
    obtain rfl := (Prod.mk.inj taken).2
    rw [List.map_nil, List.append_nil]
    exact follows
  | cons file files ih =>
    obtain ⟨next, first, kept, taken⟩ := Indexing.takeAll_cons taken
    have follows := follows.take config plain (plains file List.mem_cons_self) first
    have rest := ih ((congrArg Config.chunks kept).trans config)
      (fun other member => plains other (List.mem_cons_of_mem _ member)) follows taken
    rwa [List.append_assoc] at rest

theorem chunksNow_of_leftOut (out : (chunksOf options read path).isOk = false) :
    chunksNow options read path = [] := by
  unfold chunksNow
  cases cut : chunksOf options read path with
  | ok chunks =>
    rw [cut] at out
    cases out
  | error reason => rfl

theorem Follows.fresh {before after : List IndexRecord} (listed : path ∈ paths)
    (follows : Follows options read path before paths after) :
    ∃ fresh, List.Forall₂ IndexRecord.IsOf fresh (chunksNow options read path) ∧
      recordsOf after path =
        (recordsOf before path).filter
          (fun record => !isReplaced (indexable options read paths) record) ++ fresh := by
  obtain ⟨fresh, match₂, records⟩ := follows
  refine ⟨fresh, ?_, records⟩
  split at match₂
  · exact match₂
  · next out =>
    have failed : (chunksOf options read path).isOk = false := by
      simpa [indexable, listed] using out
    rw [chunksNow_of_leftOut failed]
    exact match₂

theorem index_follows {engine after : Engine} {clock : Nat → Nat → Nat} {files : List String}
    {report : IndexReport} (plain : ∀ file ∈ files, ':' ∉ (Path.normalize file).toList)
    (ran : engine.indexDuring clock read files = (.ok report, after))
    (listed : path ∈ files.map Path.normalize) :
    Follows engine.config.chunks read path engine.retriever.index.records
      (files.map Path.normalize) after.retriever.index.records := by
  obtain ⟨file, member, rfl⟩ := List.mem_map.mp listed
  unfold indexDuring at ran
  split at ran
  · cases (Prod.mk.inj ran).1
  · next done taken =>
    obtain rfl := (Prod.mk.inj ran).2
    have start : Follows engine.config.chunks read (Path.normalize file)
        engine.retriever.index.records [] engine.retriever.index.records := follows_start _
    have settings : (⟨engine, 0, 0, []⟩ : Indexing).engine.config.chunks = engine.config.chunks := rfl
    exact Follows.takeAll settings (plain file member) plain start taken

/-- The records of a file are those of its chunks if nothing stays of those that it had. -/
theorem Follows.forall₂_iff {after : List IndexRecord} (listed : path ∈ paths)
    (follows : Follows options read path before paths after) :
    List.Forall₂ IndexRecord.IsOf (recordsOf after path) (chunksNow options read path) ↔
      ∀ record ∈ recordsOf before path, isReplaced (indexable options read paths) record = true := by
  obtain ⟨fresh, made, records⟩ := follows.fresh listed
  rw [records]
  constructor
  · intro all
    have lengths := all.length_eq
    rw [List.length_append, made.length_eq] at lengths
    have none := List.eq_nil_of_length_eq_zero (Nat.add_eq_right.mp lengths)
    simpa using List.filter_eq_nil_iff.mp none
  · intro replaced
    have none : (recordsOf before path).filter
        (fun record => !isReplaced (indexable options read paths) record) = [] :=
      List.filter_eq_nil_iff.mpr fun record member => by simp [replaced record member]
    rw [none]
    exact made

theorem isReplaced_iff {record : IndexRecord} :
    isReplaced paths record = true ↔
      ∃ path ∈ paths, record.id.startsWith (recordStart path) = true := by
  simp [isReplaced]

/-- Where ids begin with the paths of their files, a file replaces its own records and no others. -/
theorem KeepsPaths.all_replaced_iff {engine : Engine} (kept : engine.KeepsPaths)
    (plain : ∀ other ∈ paths, ':' ∉ other.toList) (listed : path ∈ paths) :
    (∀ record ∈ recordsOf engine.retriever.index.records path,
        isReplaced (indexable options read paths) record = true) ↔
      path ∈ indexable options read paths ∨ recordsOf engine.retriever.index.records path = [] := by
  have begins : ∀ record ∈ recordsOf engine.retriever.index.records path,
      record.id.startsWith (recordStart path) = true := by
    intro record member
    obtain ⟨member, said⟩ := List.mem_filter.mp member
    exact kept record member path (beq_iff_eq.mp said)
  constructor
  · intro replaced
    by_cases none : recordsOf engine.retriever.index.records path = []
    · exact .inr none
    · obtain ⟨record, member⟩ := List.exists_mem_of_ne_nil _ none
      obtain ⟨other, inside, starts⟩ := isReplaced_iff.mp (replaced record member)
      have same := Text.colon_start_unique (plain path listed)
        (plain other (List.mem_filter.mp inside).1) (begins record member) starts
      exact .inl (same ▸ inside)
  · rintro (inside | none) record member
    · exact isReplaced_iff.mpr ⟨path, inside, begins record member⟩
    · rw [none] at member
      cases member

/-- Indexing gives a file the records of its chunks, and of these alone, if and only if all that it
had before is replaced. A file that is left out replaces nothing. So where ids begin with the paths of
their files, the file must be one that is not left out, or have had no records. -/
theorem index_replaces (engine : Engine) (clock : Nat → Nat → Nat) (read : String → Reading)
    (files : List String) (report : IndexReport)
    (plain : ∀ file ∈ files, ':' ∉ (Path.normalize file).toList)
    (ran : (engine.indexDuring clock read files).1 = .ok report) (path : String)
    (listed : path ∈ files.map Path.normalize) :
    let before := recordsOf engine.retriever.index.records path
    let after := recordsOf (engine.indexDuring clock read files).2.retriever.index.records path
    let chunks := chunksNow engine.config.chunks read path
    let indexed := indexable engine.config.chunks read (files.map Path.normalize)
    (List.Forall₂ IndexRecord.IsOf after chunks ↔
        ∀ record ∈ before, isReplaced indexed record = true) ∧
      (engine.KeepsPaths →
        (List.Forall₂ IndexRecord.IsOf after chunks ↔ path ∈ indexed ∨ before = [])) := by
  intro before after chunks indexed
  have follows := index_follows plain (Prod.ext ran rfl) listed
  have apart : ∀ other ∈ files.map Path.normalize, ':' ∉ other.toList := by
    intro other member
    obtain ⟨file, inside, rfl⟩ := List.mem_map.mp member
    exact plain file inside
  refine ⟨follows.forall₂_iff listed, fun kept => ?_⟩
  exact (follows.forall₂_iff listed).trans (kept.all_replaced_iff apart listed)

/-- A file is changed, and indexed again under another spelling. -/
theorem index_replaces_changed :
    let before := ((new .default none).indexDuring (fun i j => i + j) (fun _ => .text "one\ntwo\n")
      ["a.txt"]).2
    let files := ["./a.txt", "b.txt"]
    (∀ file ∈ files, ':' ∉ (Path.normalize file).toList) ∧
      (∃ report, (before.indexDuring (fun _ j => j) (fun _ => .text "three\n") files).1 =
        .ok report) ∧
      List.Forall₂ IndexRecord.IsOf
        (recordsOf (before.indexDuring (fun _ j => j) (fun _ => .text "three\n") files).2.retriever.index.records
          "a.txt")
        (chunksNow before.config.chunks (fun _ => .text "three\n") "a.txt") := by
  intro before files
  have kept : Keeps (new .default none) before := keeps_index _ _ _ _
  have fits : before.Fits := ((new_fits .default none).index _ _ _).2
  have plain : ∀ file ∈ files, ':' ∉ (Path.normalize file).toList := by decide
  have settings : before.config.chunks = Config.default.chunks := congrArg Config.chunks kept.config
  have cut : AllCut before.config.chunks (fun _ => .text "three\n") (files.map Path.normalize) := by
    rw [settings]
    decide +kernel
  obtain ⟨report, ran⟩ := (fits.index (fun _ j => j) (fun _ => .text "three\n") files).1.ok_iff.mpr cut
  have replaces := index_replaces before _ _ files report plain ran "a.txt" (by decide)
  have indexed : "a.txt" ∈ indexable Config.default.chunks (fun _ => .text "three\n")
      (files.map Path.normalize) := by decide +kernel
  rw [← settings] at indexed
  exact ⟨plain, ⟨report, ran⟩, (replaces.2 (kept.paths (new_keepsPaths _ _))).mpr (.inl indexed)⟩

/-- Files that are left out change nothing about an engine. -/
theorem takeAll_of_leftOut {clock : Nat → Nat → Nat} {i : Nat} {files : List String}
    (out : ∀ file ∈ files, (chunksOf indexing.engine.config.chunks read
      (Path.normalize file)).isOk = false) :
    (Indexing.takeAll clock read i files indexing).2.engine = indexing.engine := by
  induction files generalizing i indexing with
  | nil => rfl
  | cons file files ih =>
    have here := out file List.mem_cons_self
    unfold Indexing.takeAll Indexing.take
    cases cut : chunksOf indexing.engine.config.chunks read (Path.normalize file) with
    | ok chunks =>
      rw [cut] at here
      cases here
    | error failure =>
      cases failure with
      | error reason =>
        have skipped : (indexing.skip (Path.normalize file) reason).engine = indexing.engine := rfl
        rw [← skipped] at out ⊢
        exact ih fun other member => out other (List.mem_cons_of_mem _ member)
      | overflow => rfl

theorem index_of_leftOut {engine : Engine} {clock : Nat → Nat → Nat} {files : List String}
    (out : ∀ file ∈ files, (chunksOf engine.config.chunks read (Path.normalize file)).isOk = false) :
    (engine.indexDuring clock read files).2 = engine := by
  rw [indexDuring_engine]
  exact takeAll_of_leftOut (show ∀ file ∈ files,
    (chunksOf (⟨engine, 0, 0, []⟩ : Indexing).engine.config.chunks read
      (Path.normalize file)).isOk = false from out)

/-- One file is deleted and another one emptied. Both are listed again, and their chunks are still
there. -/
theorem index_leaves_gone :
    let files := ["a.txt", "b.txt"]
    let before := ((new .default none).indexDuring (fun i j => i + j) (fun _ => .text "one\n") files).2
    let read : String → Reading := fun path => if path = "a.txt" then .missing else .text ""
    (∀ file ∈ files, ':' ∉ (Path.normalize file).toList) ∧
      (∃ report, (before.indexDuring (fun _ j => j) read files).1 = .ok report) ∧
      ∀ path ∈ files.map Path.normalize, ¬ List.Forall₂ IndexRecord.IsOf
        (recordsOf (before.indexDuring (fun _ j => j) read files).2.retriever.index.records path)
        (chunksNow before.config.chunks read path) := by
  intro files
  have plain : ∀ file ∈ files, ':' ∉ (Path.normalize file).toList := by decide
  have cut : AllCut Config.default.chunks (fun _ => .text "one\n") (files.map Path.normalize) := by
    decide +kernel
  obtain ⟨ends, fits⟩ := (new_fits .default none).index (fun i j => i + j) (fun _ => .text "one\n") files
  obtain ⟨report, ran⟩ := ends.ok_iff.mpr cut
  generalize run : (new .default none).indexDuring (fun i j => i + j) (fun _ => .text "one\n") files =
    first at ran fits ⊢
  obtain ⟨result, before⟩ := first
  obtain rfl : result = .ok report := ran
  intro _ read
  have out : ∀ file ∈ files, (chunksOf before.config.chunks read (Path.normalize file)).isOk = false := by
    intro file member
    rcases List.mem_pair.mp member with rfl | rfl <;> rfl
  have one : ∀ path ∈ files.map Path.normalize,
      (chunksNow Config.default.chunks (fun _ => .text "one\n") path).length = 1 := by
    decide +kernel
  have passed : AllCut before.config.chunks read (files.map Path.normalize) := by
    refine List.forall_mem_map.mpr fun file member => ?_
    rcases List.mem_pair.mp member with rfl | rfl <;> rfl
  refine ⟨plain, (Fits.index fits _ _ _).1.ok_iff.mpr passed, fun path listed empty => ?_⟩
  obtain ⟨file, member, rfl⟩ := List.mem_map.mp listed
  rw [index_of_leftOut out, chunksNow_of_leftOut (out file member)] at empty
  obtain ⟨fresh, made, records⟩ := (index_follows plain run listed).fresh listed
  have none : (recordsOf before.retriever.index.records (Path.normalize file)).length = 0 :=
    empty.length_eq
  have some : fresh.length = 1 := made.length_eq.trans (one _ listed)
  rw [records, List.length_append] at none
  omega

end CodeAtlas.Engine
