import CodeAtlas.Proofs.Engine.Again
import CodeAtlas.Proofs.Graph.Ownership
import CodeAtlas.Proofs.Search.Header
import Mathlib.Data.List.Perm.Subperm

namespace CodeAtlas

/-- What is said about a file that is left out. -/
def Skipped.of {α : Type} (path : String) : Except SkipReason α → List Skipped
  | .ok _ => []
  | .error reason => [⟨path, reason⟩]

theorem Skipped.length_flatMap_of {α : Type} (outcome : String → Except SkipReason α)
    (paths : List String) :
    (paths.filter fun path => (outcome path).isOk).length +
      (paths.flatMap fun path => Skipped.of path (outcome path)).length = paths.length := by
  induction paths with
  | nil => rfl
  | cons path paths ih =>
    cases looked : outcome path <;>
      simp [looked, Skipped.of, Except.isOk, Except.toBool] at ih ⊢ <;> omega

theorem Reading.text_of_source {reading : Reading} {path : String}
    (readable : (reading.source path).isOk = true) :
    ∃ content, reading = .text content ∧ reading.source path = .ok content := by
  cases reading with
  | missing => cases readable
  | unreadable reason => cases readable
  | text content =>
    refine ⟨content, rfl, ?_⟩
    simp only [Reading.source] at readable ⊢
    split at readable
    · cases readable
    · next full => rw [if_neg full]

namespace Graph

/-- The counts of a build, over its files as they are first listed. -/
theorem build_counts (read : String → Reading) (files : List String) :
    let paths := (files.map Path.normalize).eraseDups
    let report := (build (.ofFiles read) files).2
    report.filesIndexed = (paths.filter fun path => ((read path).source path).isOk).length ∧
      report.skipped = paths.flatMap fun path => Skipped.of path ((read path).source path) := by
  intro paths report
  let project := Project.ofFiles read
  have single : ∀ path,
      (Draft.ofPath project path).outlines.length =
          (if ((read path).source path).isOk then 1 else 0) ∧
        (Draft.ofPath project path).skipped = Skipped.of path ((read path).source path) := by
    intro path
    unfold Draft.ofPath Draft.take
    rw [if_neg (by simp [Draft.empty])]
    cases looked : (project.read path).source path with
    | error reason =>
      have same : (read path).source path = .error reason := looked
      rw [same]
      exact ⟨rfl, rfl⟩
    | ok source =>
      have same : (read path).source path = .ok source := looked
      rw [same]
      dsimp only [Draft.addSource]
      cases project.outline path source <;> exact ⟨rfl, rfl⟩
  have drafted : draft project files = .ofPaths project paths := draft_eq project files
  refine ⟨?_, ?_⟩
  · have counted : report.filesIndexed = (draft project files).outlines.length := rfl
    rw [counted, drafted, Draft.ofPaths]
    generalize paths = paths
    induction paths with
    | nil => rfl
    | cons path paths ih =>
      rw [List.flatMap_cons, List.length_append, ih, (single path).1, List.filter_cons]
      split <;> simp [Nat.add_comm]
  · have listed : report.skipped = (draft project files).skipped := rfl
    rw [listed, drafted, Draft.ofPaths]
    exact congrArg (List.flatMap · paths) (funext fun path => (single path).2)

end Graph

/-- How cutting a text ends. -/
theorem Chunk.ofSource_cases (options : ChunkOptions) (path content : String) :
    (∃ chunks, ofSource options path content = .ok chunks) ∨
      ofSource options path content = .error (.error .emptyContent) ∨
      ofSource options path content = .error .overflow := by
  unfold ofSource cut
  split
  · exact .inr (.inl rfl)
  · dsimp only
    split
    · exact .inl ⟨_, rfl⟩
    · exact .inr (.inr rfl)

theorem nodup_of_length_eraseDups {paths : List String} (distinct : paths.eraseDups.Nodup)
    (long : paths.length ≤ paths.eraseDups.length) : paths.Nodup := by
  have among : paths.eraseDups ⊆ paths := fun path member => List.mem_eraseDups.mp member
  exact ((List.subperm_of_subset distinct among).perm_of_length_le long).nodup_iff.mp distinct

theorem eraseDups_of_nodup {paths : List String} (distinct : paths.Nodup) :
    paths.eraseDups = paths := by
  induction paths with
  | nil => rfl
  | cons path paths ih =>
    obtain ⟨new, rest⟩ := List.nodup_cons.mp distinct
    have others : (paths.filter fun other => !other == path) = paths := by
      refine List.filter_eq_self.mpr fun other listed => ?_
      have apart : other ≠ path := fun same => new (same ▸ listed)
      simp [apart]
    rw [List.eraseDups_cons, others, ih rest]

namespace Engine

variable {options : ChunkOptions} {read : String → Reading} {indexing after : Indexing}

/-- How many chunks files are cut into, each as often as it is listed. -/
def chunkCount (options : ChunkOptions) (read : String → Reading) (paths : List String) : Nat :=
  (paths.map fun path => (chunksNow options read path).length).sum

/-- What looking at files adds to the counts. -/
structure Indexing.Adds (options : ChunkOptions) (read : String → Reading) (paths : List String)
    (before after : Indexing) : Prop where
  files : after.filesIndexed = before.filesIndexed + (indexable options read paths).length
  chunks : after.chunksIndexed = before.chunksIndexed + chunkCount options read paths
  skipped : after.skipped =
    before.skipped ++ paths.flatMap fun path => Skipped.of path ((read path).source path)

theorem Indexing.Adds.refl (indexing : Indexing) : Indexing.Adds options read [] indexing indexing :=
  ⟨rfl, rfl, (List.append_nil _).symm⟩

theorem Indexing.Adds.trans {first second : List String} {before between : Indexing}
    (head : Indexing.Adds options read first before between)
    (tail : Indexing.Adds options read second between after) :
    Indexing.Adds options read (first ++ second) before after where
  files := by
    rw [tail.files, head.files, indexable, indexable, indexable, List.filter_append,
      List.length_append, Nat.add_assoc]
  chunks := by
    rw [tail.chunks, head.chunks, chunkCount, chunkCount, chunkCount, List.map_append,
      List.sum_append, Nat.add_assoc]
  skipped := by
    rw [tail.skipped, head.skipped, List.flatMap_append, List.append_assoc]

/-- A file is left out for what reading it yields, and not for how it is cut. -/
theorem chunksOf_eq_error_iff {path : String} {reason : SkipReason} :
    chunksOf options read path = .error (.error reason) ↔
      (read path).source path = .error reason := by
  unfold chunksOf
  split
  · next why out => simp [out]
  · next source reads =>
    rw [reads]
    refine iff_of_false ?_ (by simp)
    obtain ⟨chunks, made⟩ | blank | aborts := Chunk.ofSource_cases options path source
    · simp [made]
    · simp [blank]
    · simp [aborts]

theorem chunksOf_isOk {path : String} (cut : isCut options read path = true) :
    (chunksOf options read path).isOk = ((read path).source path).isOk := by
  cases reads : (read path).source path with
  | error reason =>
    rw [chunksOf_eq_error_iff.mpr reads]
    rfl
  | ok source =>
    cases made : chunksOf options read path with
    | ok chunks => rfl
    | error failure =>
      cases failure with
      | error reason => cases reads.symm.trans (chunksOf_eq_error_iff.mp made)
      | overflow => exact absurd made (isCut_iff.mp cut)

theorem Indexing.take_adds {clock : Nat → Nat} {path : String}
    (config : indexing.engine.config.chunks = options)
    (taken : indexing.take clock read path = (.ok (), after)) :
    Indexing.Adds options read [path] indexing after := by
  unfold Indexing.take at taken
  rw [config] at taken
  cases cut : chunksOf options read path with
  | error failure =>
    have out : (chunksOf options read path).isOk = false := by
      rw [cut]
      rfl
    have none := chunksNow_of_leftOut out
    rw [cut] at taken
    cases failure with
    | error reason =>
      have reads := chunksOf_eq_error_iff.mp cut
      obtain rfl := (Prod.mk.inj taken).2
      refine ⟨?_, ?_, ?_⟩ <;>
        simp [Indexing.skip, indexable, chunkCount, none, cut, reads, Skipped.of, Except.isOk,
          Except.toBool]
    | overflow => cases taken
  | ok chunks =>
    have now := chunksNow_eq cut
    have some : Skipped.of path ((read path).source path) = [] := by
      cases found : (read path).source path with
      | ok source => rfl
      | error reason => cases cut.symm.trans (chunksOf_eq_error_iff.mpr found)
    rw [cut] at taken
    have shape := (indexing.isOf_fresh clock chunks).length_eq
    simp only [Indexing.takeChunks] at taken
    split at taken
    · next none =>
      obtain rfl := List.isEmpty_iff.mp none
      obtain rfl := (Prod.mk.inj taken).2
      refine ⟨?_, ?_, ?_⟩ <;>
        simp [indexable, chunkCount, now, cut, some, Except.isOk, Except.toBool]
    · split at taken
      · obtain rfl := (Prod.mk.inj taken).2
        refine ⟨?_, ?_, ?_⟩
        · simp [indexable, cut, Except.isOk, Except.toBool]
        · simp only [chunkCount, now, List.map_cons, List.map_nil, List.sum_singleton, ← shape]
          rfl
        · simp [some]
      · cases taken

theorem Indexing.takeAll_adds {clock : Nat → Nat → Nat} {i : Nat} {files : List String}
    (config : indexing.engine.config.chunks = options)
    (taken : Indexing.takeAll clock read i files indexing = (.ok (), after)) :
    Indexing.Adds options read (files.map Path.normalize) indexing after := by
  induction files generalizing i indexing with
  | nil =>
    obtain rfl := (Prod.mk.inj taken).2
    exact .refl indexing
  | cons file files ih =>
    obtain ⟨next, first, kept, rest⟩ := Indexing.takeAll_cons taken
    exact (Indexing.take_adds config first).trans
      (ih ((congrArg Config.chunks kept).trans config) rest)

/-- The counts of indexing, over its files each time that they are listed, and how many records it
leaves where there were none. That does not depend on the vectors. -/
theorem index_counts {engine : Engine} (fits : engine.Fits)
    (empty : engine.retriever.index.records = []) (clock : Nat → Nat → Nat)
    (read : String → Reading) (files : List String) :
    let paths := files.map Path.normalize
    let options := engine.config.chunks
    AllCut options read paths →
      ∃ report after, engine.indexDuring clock read files = (.ok report, after) ∧
        report.filesIndexed = (indexable options read paths).length ∧
        report.chunksIndexed = chunkCount options read paths ∧
        (report.skipped = paths.flatMap fun path => Skipped.of path ((read path).source path)) ∧
        after.retriever.index.records.length =
          (reindexed (IndexRecord.ofChunk · []) options read paths []).length := by
  intro paths options all
  have start : (⟨engine, 0, 0, []⟩ : Indexing).engine.Fits := fits
  obtain ⟨after, taken, _⟩ := start.takeAll clock read 0 files
  have settings : (⟨engine, 0, 0, []⟩ : Indexing).engine.config.chunks = options := rfl
  rw [settings, reached_eq all] at taken
  obtain ⟨indexed, cut, skipped⟩ := Indexing.takeAll_adds settings taken
  have records := ((makes_bare (textsOf options read paths)).index trivial fits clock
    (List.Subset.refl _)).2
  rw [empty, List.map_nil, reached_eq all] at records
  have length := congrArg List.length records
  rw [List.length_map] at length
  unfold indexDuring at length ⊢
  rw [taken] at length ⊢
  exact ⟨_, _, rfl, by simpa using indexed, by simpa using cut, by simpa using skipped, length⟩

/-- Files that are listed once each leave a record for every chunk. -/
theorem length_reindexed {make : Chunk → IndexRecord} (ids : ∀ chunk, (make chunk).id = chunk.id)
    {paths : List String} (distinct : paths.Nodup) (plain : ∀ path ∈ paths, ':' ∉ path.toList) :
    (reindexed make options read paths []).length = chunkCount options read paths := by
  induction paths with
  | nil => rfl
  | cons path paths ih =>
    obtain ⟨new, rest⟩ := List.nodup_cons.mp distinct
    obtain ⟨here, later⟩ := List.forall_mem_cons.mp plain
    have counted := ih rest later
    have split : chunkCount options read (path :: paths) =
        (chunksNow options read path).length + chunkCount options read paths := by
      simp [chunkCount]
    rw [split]
    cases cut : chunksOf options read path with
    | error reason =>
      rw [chunksNow_of_leftOut (by rw [cut]; rfl)]
      simpa [reindexed, cut] using counted
    | ok chunks =>
      have stay : (chunks.map make).filter
          (fun record => !isReplaced (indexable options read paths) record) = chunks.map make := by
        refine List.filter_eq_self.mpr fun record made => ?_
        obtain ⟨chunk, listed, rfl⟩ := List.mem_map.mp made
        have starts : (make chunk).id.startsWith (recordStart path) = true := by
          rw [ids, ← (chunksOf_pairwise cut).2 chunk listed]
          exact chunk.id_startsWith
        rw [Bool.not_eq_true', Bool.eq_false_iff]
        intro replaced
        obtain ⟨other, member, begins⟩ := isReplaced_iff.mp replaced
        have listed' := (List.mem_filter.mp member).1
        exact new (Text.colon_start_unique here (later other listed') starts begins ▸ listed')
      have whole : reindexed make options read paths (chunks.map make ++ []) = _ :=
        reindexed_append paths (chunks.map make) []
      rw [List.append_nil, stay] at whole
      simp only [reindexed, cut, List.filter_nil, List.nil_append, whole, List.length_append,
        List.length_map, counted, chunksNow_eq cut]

/-- The program gets past a file if its lines can be counted. -/
theorem isCut_of_countable {path : String} (positive : 1 ≤ options.maxLines)
    (countable : ∀ content, read path = .text content →
      (Text.lines content).length + options.maxLines < UInt64.size) :
    isCut options read path = true := by
  rw [isCut_iff]
  unfold chunksOf
  cases reads : (read path).source path with
  | error reason => simp
  | ok source =>
    obtain ⟨content, found, same⟩ := Reading.text_of_source (by rw [reads]; rfl)
    obtain rfl := Except.ok.inj (reads.symm.trans same)
    have cut : Chunk.ofSource options path source = .error (.error .emptyContent) ∨
        ∃ chunks, Chunk.ofSource options path source = .ok chunks := by
      unfold Chunk.ofSource
      split
      · exact .inl rfl
      · refine .inr (Chunk.exists_cut path ?_ positive (countable source found))
        split
        · next outlined => exact Outline.ofSource_isOrdered outlined
        · exact fun _ nothing => nomatch nothing
    obtain blank | ⟨chunks, made⟩ := cut
    · simp [blank]
    · simp [made]

/-- What is said of each file of a list is said as often of the list without its repetitions, if and only
if it has none. -/
theorem counts_agree_iff {α : Type} (outcome : String → Except SkipReason α) (paths : List String)
    (distinct : paths.eraseDups.Nodup) :
    ((paths.filter fun path => (outcome path).isOk).length =
          (paths.eraseDups.filter fun path => (outcome path).isOk).length ∧
        (paths.flatMap fun path => Skipped.of path (outcome path)) =
          paths.eraseDups.flatMap fun path => Skipped.of path (outcome path)) ↔
      paths.Nodup := by
  constructor
  · rintro ⟨files, skipped⟩
    have here := Skipped.length_flatMap_of outcome paths
    have there := Skipped.length_flatMap_of outcome paths.eraseDups
    have long : paths.length ≤ paths.eraseDups.length := by
      rw [← here, ← there, skipped, ← files]
    exact nodup_of_length_eraseDups distinct long
  · intro once
    rw [eraseDups_of_nodup once]
    exact ⟨rfl, rfl⟩

/-- Where there are no records, indexing counts as a build does if and only if each file is listed once. -/
theorem index_agrees_iff {engine : Engine} (fits : engine.Fits)
    (empty : engine.retriever.index.records = []) (clock : Nat → Nat → Nat)
    (read : String → Reading) (files : List String)
    (plain : ∀ file ∈ files, ':' ∉ (Path.normalize file).toList) {report : IndexReport}
    (ran : (engine.indexDuring clock read files).1 = .ok report) :
    let built := (Graph.build (.ofFiles read) files).2
    let indexed := (engine.indexDuring clock read files).2
    (report.filesIndexed = built.filesIndexed ∧ report.skipped = built.skipped ∧
        report.chunksIndexed = indexed.retriever.index.records.length) ↔
      (files.map Path.normalize).Nodup := by
  intro built indexed
  have all := (fits.index clock read files).1.ok_iff.mp ⟨report, ran⟩
  obtain ⟨_, after, run, taken, cut, skipped, records⟩ :=
    index_counts fits empty clock read files all
  rw [run] at ran
  obtain rfl := Except.ok.inj ran
  obtain ⟨taken', skipped'⟩ := Graph.build_counts read files
  have agree := counts_agree_iff (fun path => (read path).source path) (files.map Path.normalize)
    (Graph.nodup_paths files)
  have readable : indexable engine.config.chunks read (files.map Path.normalize) =
      (files.map Path.normalize).filter fun path => ((read path).source path).isOk :=
    List.filter_congr fun path listed => chunksOf_isOk (all path listed)
  rw [← readable, ← taken, ← taken', ← skipped, ← skipped'] at agree
  refine ⟨fun same => agree.mp ⟨same.1, same.2.1⟩, fun once => ?_⟩
  obtain ⟨same, same'⟩ := agree.mpr once
  refine ⟨same, same', ?_⟩
  rw [show indexed = after from congrArg Prod.snd run, cut, records,
    length_reindexed (fun _ => rfl) once (List.forall_mem_map.mpr plain)]

/-- Whether the graph of some files is built before they are indexed or not: on a new engine, unless the
program aborts at one of them, the two report the same files, and as many chunks as there are records, if
and only if each file is listed once. It does not abort if the lines of each file can be counted. -/
theorem index_counts_as_build_iff (config : Config) (provider : Option Provider)
    (clock : Nat → Nat → Nat) (read : String → Reading) (files : List String)
    (plain : ∀ file ∈ files, ':' ∉ (Path.normalize file).toList) :
    let paths := files.map Path.normalize
    let built := (new config provider).build read files
    (∀ engine ∈ [new config provider, built.2],
      let indexed := engine.indexDuring clock read files
      Ends config.chunks read files indexed.1 ∧
        ∀ report, indexed.1 = .ok report →
          ((report.filesIndexed = built.1.2.filesIndexed ∧ report.skipped = built.1.2.skipped ∧
              report.chunksIndexed = indexed.2.retriever.index.records.length) ↔ paths.Nodup)) ∧
      (config.chunks.check = .ok () →
        (∀ path ∈ paths, ∀ content, read path = .text content →
          (Text.lines content).length + config.chunks.maxLines < UInt64.size) →
        AllCut config.chunks read paths) := by
  intro paths built
  refine ⟨fun engine either => ?_, fun sound countable path listed =>
    isCut_of_countable (Chunk.maxLines_pos sound) (countable path listed)⟩
  have start : engine.Fits ∧ engine.config = config ∧ engine.retriever.index.records = [] := by
    rcases List.mem_pair.mp either with rfl | rfl <;>
      exact ⟨new_fits config provider, rfl, rfl⟩
  obtain ⟨fits, rfl, empty⟩ := start
  exact ⟨(fits.index clock read files).1, fun report ran =>
    index_agrees_iff fits empty clock read files plain ran⟩

/-- A file and one that is not there. -/
theorem index_counts_as_build_missing :
    let read : String → Reading := fun path => if path = "a.txt" then .text "one\n" else .missing
    let files := ["./a.txt", "b.txt"]
    let built := (new .default none).build read files
    (∀ file ∈ files, ':' ∉ (Path.normalize file).toList) ∧
      ∃ report, (built.2.indexDuring (fun i j => i + j) read files).1 = .ok report ∧
        report.filesIndexed = built.1.2.filesIndexed ∧ report.skipped = built.1.2.skipped := by
  intro read files built
  have plain : ∀ file ∈ files, ':' ∉ (Path.normalize file).toList := by decide
  obtain ⟨agree, cuts⟩ := index_counts_as_build_iff .default none (fun i j => i + j) read files plain
  obtain ⟨ends, same⟩ := agree built.2 (by simp [built])
  have distinct : (files.map Path.normalize).Nodup := by decide +kernel
  have countable : ∀ path ∈ files.map Path.normalize, ∀ content, read path = .text content →
      (Text.lines content).length + Config.default.chunks.maxLines < UInt64.size := by
    intro path _ content found
    simp only [read] at found
    split at found
    · cases found
      decide +kernel
    · cases found
  obtain ⟨report, ran⟩ := ends.ok_iff.mpr (cuts rfl countable)
  obtain ⟨files', skipped, _⟩ := (same report ran).mpr distinct
  exact ⟨plain, report, ran, files', skipped⟩

/-- One file that is listed twice, in two spellings. The build takes it up once; indexing counts two
files and two chunks, and there is one record. -/
theorem index_counts_again :
    let read : String → Reading := fun path => if path = "a.txt" then .text "one\n" else .missing
    let files := ["a.txt", "./a.txt"]
    let built := (new .default none).build read files
    (∀ file ∈ files, ':' ∉ file.toList) ∧
      ∃ report after, (new .default none).indexDuring (fun i j => i + j) read files = (.ok report, after) ∧
        built.1.2.filesIndexed = 1 ∧ report.filesIndexed = 2 ∧ report.chunksIndexed = 2 ∧
        after.retriever.index.records.length = 1 := by
  intro read files built
  have plain : ∀ file ∈ files, ':' ∉ file.toList := by decide
  have paths : files.map Path.normalize = ["a.txt", "a.txt"] := by decide +kernel
  have all : AllCut Config.default.chunks read (files.map Path.normalize) := by decide +kernel
  obtain ⟨report, after, ran, taken, cut, _, records⟩ :=
    index_counts (new_fits .default none) rfl (fun i j => i + j) read files all
  have once := (Graph.build_counts read files).1
  rw [paths] at taken cut once records
  refine ⟨plain, report, after, ran, once.trans ?_, taken.trans ?_, cut.trans ?_, records.trans ?_⟩
  · decide +kernel
  · decide +kernel
  · decide +kernel
  · decide +kernel

end Engine

end CodeAtlas
