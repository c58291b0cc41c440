import CodeAtlas.Proofs.Chunk.Ids
import CodeAtlas.Proofs.Embedding.Lookup
import CodeAtlas.Proofs.Engine.Run
import CodeAtlas.Proofs.Index.History
import CodeAtlas.Proofs.Json.Record
import Mathlib.Data.List.TakeWhile

namespace CodeAtlas

namespace IndexRecord

/-- The file that a record says it is of. -/
def path? (record : IndexRecord) : Option String :=
  match record.metadata.lookup "file_path" with
  | some (.string path) => some path
  | _ => none

/-- A record says what a chunk does. -/
def IsOf (record : IndexRecord) (chunk : Chunk) : Prop := ∃ vector, record = ofChunk chunk vector

theorem path?_ofChunk (chunk : Chunk) (vector : Embedding) :
    (ofChunk chunk vector).path? = some chunk.path := by
  unfold ofChunk path? Json.sortMembers
  cases chunk.symbol with
  | none => simp [Json.lookup_insertMember]
  | some symbol => simp [Json.lookup_insertMember]

variable {chunks : List Chunk} {vectors : List Embedding} {records : List IndexRecord}
  {record : IndexRecord}

theorem zipWith_ofChunk (enough : vectors.length = chunks.length) :
    List.Forall₂ IsOf (List.zipWith ofChunk chunks vectors) chunks := by
  induction chunks generalizing vectors with
  | nil => exact .nil
  | cons chunk chunks ih =>
    obtain ⟨vector, vectors, rfl⟩ := List.exists_cons_of_length_eq_add_one enough
    exact .cons ⟨vector, rfl⟩ (ih (Nat.succ.inj enough))

theorem of_mem_zipWith_ofChunk (member : record ∈ List.zipWith ofChunk chunks vectors) :
    ∃ chunk vector, record = ofChunk chunk vector ∧ vector ∈ vectors := by
  rw [← List.map_uncurry_zip_eq_zipWith] at member
  obtain ⟨⟨chunk, vector⟩, paired, rfl⟩ := List.mem_map.mp member
  exact ⟨chunk, vector, rfl, (List.of_mem_zip paired).2⟩

theorem exists_of_mem (same : List.Forall₂ IsOf records chunks) (member : record ∈ records) :
    ∃ chunk ∈ chunks, record.id = chunk.id ∧ record.path? = some chunk.path := by
  induction same with
  | nil => cases member
  | @cons first chunk _ _ here _ ih =>
    rcases List.mem_cons.mp member with rfl | later
    · obtain ⟨vector, rfl⟩ := here
      exact ⟨chunk, List.mem_cons_self, rfl, path?_ofChunk chunk vector⟩
    · obtain ⟨other, listed, same⟩ := ih later
      exact ⟨other, List.mem_cons_of_mem _ listed, same⟩

theorem map_id_of_isOf (same : List.Forall₂ IsOf records chunks) :
    records.map (·.id) = chunks.map Chunk.id := by
  induction same with
  | nil => rfl
  | cons here _ ih =>
    obtain ⟨vector, rfl⟩ := here
    exact congrArg₂ List.cons rfl ih

end IndexRecord

namespace Engine

variable {engine : Engine} {indexing : Indexing}

/-- The index has the dimension of the embedder or none yet. -/
def Fits (engine : Engine) : Prop := engine.retriever.index.Suits engine.embedder.dimension

/-- A record whose file is known has an id that begins with its path. -/
def KeepsPaths (engine : Engine) : Prop :=
  ∀ record ∈ engine.retriever.index.records, ∀ path, record.path? = some path →
    record.id.startsWith (recordStart path) = true

theorem new_fits (config : Config) (provider : Option Provider) : (new config provider).Fits :=
  fun _ set => (Option.some.inj set).symm

theorem new_keepsPaths (config : Config) (provider : Option Provider) :
    (new config provider).KeepsPaths :=
  fun _ nothing => nomatch nothing

theorem Fits.takeChunks (fits : indexing.engine.Fits) (clock : Nat → Nat) (path : String)
    (chunks : List Chunk) :
    ∃ after, indexing.takeChunks clock path chunks = (.ok (), after) ∧ after.engine.Fits := by
  unfold Indexing.takeChunks
  dsimp only
  split
  · exact ⟨_, rfl, fits⟩
  · have lengths := (indexing.engine.embedder.embedDuring_shape clock (chunks.map (·.content))).2
    have same : (indexing.engine.embedder.embedDuring clock (chunks.map (·.content))).2.dimension =
        indexing.engine.embedder.dimension := by
      rw [Embedder.embedDuring_eq]
    have removed : (indexing.engine.retriever.index.removeUnder (recordStart path)).2.Suits
        indexing.engine.embedder.dimension := fits
    have sized : ∀ record ∈ List.zipWith IndexRecord.ofChunk chunks
        (indexing.engine.embedder.embedDuring clock (chunks.map (·.content))).1,
        record.embedding.length = indexing.engine.embedder.dimension := by
      intro record member
      obtain ⟨chunk, vector, rfl, listed⟩ := IndexRecord.of_mem_zipWith_ofChunk member
      exact lengths vector listed
    obtain ⟨index, inserted, suits⟩ := removed.insertMany sized
    split
    · next other taken =>
      obtain rfl := Except.ok.inj (inserted.symm.trans taken)
      rw [← same] at suits
      exact ⟨_, rfl, suits⟩
    · next failed => cases inserted.symm.trans failed

/-- What is the same after a run as before, even if it fails. -/
structure Keeps (before after : Engine) : Prop where
  config : after.config = before.config
  provider : after.embedder.provider = before.embedder.provider
  dimension : after.embedder.dimension = before.embedder.dimension
  set : ∀ dimension, before.retriever.index.dimension = some dimension →
    after.retriever.index.dimension = some dimension
  uniform : before.retriever.index.Uniform → after.retriever.index.Uniform
  paths : before.KeepsPaths → after.KeepsPaths

theorem Keeps.refl (engine : Engine) : Keeps engine engine := ⟨rfl, rfl, rfl, fun _ => id, id, id⟩

theorem Keeps.trans {first second third : Engine} (head : Keeps first second)
    (tail : Keeps second third) : Keeps first third where
  config := tail.config.trans head.config
  provider := tail.provider.trans head.provider
  dimension := tail.dimension.trans head.dimension
  set dimension := tail.set dimension ∘ head.set dimension
  uniform := tail.uniform ∘ head.uniform
  paths := tail.paths ∘ head.paths

theorem keeps_takeChunks (indexing : Indexing) (clock : Nat → Nat) (path : String)
    (chunks : List Chunk) :
    Keeps indexing.engine (indexing.takeChunks clock path chunks).2.engine := by
  have removed : ∀ record ∈
      (indexing.engine.retriever.index.removeUnder (recordStart path)).2.records,
      record ∈ indexing.engine.retriever.index.records :=
    fun record member => (VectorIndex.mem_removeUnder.mp member).1
  have embedder := indexing.engine.embedder.embedDuring_eq clock (chunks.map (·.content))
  have provider := congrArg (·.2.provider) embedder
  have dimension := congrArg (·.2.dimension) embedder
  unfold Indexing.takeChunks
  split
  · exact ⟨rfl, rfl, rfl, fun _ => id, fun uniform => uniform.removeUnder _,
      fun paths record member => paths record (removed record member)⟩
  · dsimp only
    split
    · next index taken =>
      refine ⟨rfl, provider, dimension, fun expected set => ?_, fun uniform => ?_,
        fun paths record member file said => ?_⟩
      · have left : (indexing.engine.retriever.index.removeUnder (recordStart path)).2.dimension =
            some expected := set
        exact VectorIndex.dimension_of_insertMany left taken
      · exact (uniform.removeUnder _).insertMany taken
      · rcases VectorIndex.mem_of_insertMany taken member with before | new
        · exact paths record (removed record before) file said
        obtain ⟨chunk, vector, rfl, _⟩ := IndexRecord.of_mem_zipWith_ofChunk new
        rw [IndexRecord.path?_ofChunk] at said
        obtain rfl := Option.some.inj said
        exact chunk.id_startsWith
    · exact ⟨rfl, provider, dimension, fun _ => id, fun uniform => uniform.removeUnder _,
        fun paths record member => paths record (removed record member)⟩

theorem keeps_take (indexing : Indexing) (clock : Nat → Nat) (read : String → Reading)
    (path : String) : Keeps indexing.engine (indexing.take clock read path).2.engine := by
  unfold Indexing.take
  split
  · exact keeps_takeChunks indexing clock path _
  · exact .refl _
  · exact .refl _

theorem keeps_takeAll (clock : Nat → Nat → Nat) (read : String → Reading) (i : Nat)
    (files : List String) (indexing : Indexing) :
    Keeps indexing.engine (Indexing.takeAll clock read i files indexing).2.engine :=
  Indexing.takeAll_induction (fun _ _ _ _ kept => kept.trans (keeps_take ..)) clock i (.refl _)

/-- Where all files are taken the first one is, and then the others with the same settings. -/
theorem Indexing.takeAll_cons {clock : Nat → Nat → Nat} {read : String → Reading} {i : Nat}
    {file : String} {files : List String} {after : Indexing}
    (taken : takeAll clock read i (file :: files) indexing = (.ok (), after)) :
    ∃ next, indexing.take (clock i) read (Path.normalize file) = (.ok (), next) ∧
      next.engine.config = indexing.engine.config ∧
      takeAll clock read (i + 1) files next = (.ok (), after) := by
  have kept := (keeps_take indexing (clock i) read (Path.normalize file)).config
  unfold takeAll at taken
  split at taken
  · next next first =>
    rw [first] at kept
    exact ⟨next, first, kept, taken⟩
  · cases taken

theorem keeps_index (engine : Engine) (clock : Nat → Nat → Nat) (read : String → Reading)
    (files : List String) : Keeps engine (engine.indexDuring clock read files).2 := by
  rw [indexDuring_engine]
  exact keeps_takeAll clock read 0 files ⟨engine, 0, 0, []⟩

/-- The program gets past a file: the lines of its windows can be counted, or it is left out. -/
def isCut (options : ChunkOptions) (read : String → Reading) (path : String) : Bool :=
  match chunksOf options read path with
  | .error .overflow => false
  | _ => true

/-- The files that are looked at, which are those before the first at which the program aborts. -/
def reached (options : ChunkOptions) (read : String → Reading) (files : List String) : List String :=
  files.takeWhile fun file => isCut options read (Path.normalize file)

/-- The program gets past all files. -/
def AllCut (options : ChunkOptions) (read : String → Reading) (paths : List String) : Prop :=
  ∀ path ∈ paths, isCut options read path = true

instance (options : ChunkOptions) (read : String → Reading) (paths : List String) :
    Decidable (AllCut options read paths) :=
  inferInstanceAs (Decidable (∀ path ∈ paths, _))

/-- There is a report if and only if the program gets past all files; else it aborts. -/
structure Ends (options : ChunkOptions) (read : String → Reading) (files : List String)
    (outcome : Except (Failure DimensionError) IndexReport) : Prop where
  ok_iff : (∃ report, outcome = .ok report) ↔ AllCut options read (files.map Path.normalize)
  overflow_iff : outcome = .error .overflow ↔ ¬AllCut options read (files.map Path.normalize)

section Reached

variable {options : ChunkOptions} {read : String → Reading} {file : String} {files : List String}

theorem isCut_iff {path : String} :
    isCut options read path = true ↔ chunksOf options read path ≠ .error .overflow := by
  unfold isCut
  split
  · next aborts => simp [aborts]
  · next ends => exact iff_of_true rfl ends

theorem reached_subset : reached options read files ⊆ files := List.takeWhile_subset ..

theorem reached_cons :
    reached options read (file :: files) =
      if isCut options read (Path.normalize file) then file :: reached options read files else [] :=
  List.takeWhile_cons

theorem allCut_cons :
    AllCut options read ((file :: files).map Path.normalize) ↔
      isCut options read (Path.normalize file) = true ∧
        AllCut options read (files.map Path.normalize) :=
  List.forall_mem_cons

theorem reached_eq (all : AllCut options read (files.map Path.normalize)) :
    reached options read files = files :=
  List.takeWhile_eq_self_iff.mpr (List.forall_mem_map.mp all)

end Reached

theorem Fits.take (fits : indexing.engine.Fits) (clock : Nat → Nat) {read : String → Reading}
    {path : String} (cut : isCut indexing.engine.config.chunks read path = true) :
    ∃ after, indexing.take clock read path = (.ok (), after) ∧ after.engine.Fits := by
  unfold Indexing.take
  split
  · exact fits.takeChunks clock path _
  · exact ⟨_, rfl, fits⟩
  · next aborts => exact absurd aborts (isCut_iff.mp cut)

/-- The program goes through with the files that it reaches, and there it ends or aborts. -/
theorem Fits.takeAll (fits : indexing.engine.Fits) (clock : Nat → Nat → Nat)
    (read : String → Reading) (i : Nat) (files : List String) :
    let options := indexing.engine.config.chunks
    ∃ after, Indexing.takeAll clock read i (reached options read files) indexing = (.ok (), after) ∧
      after.engine.Fits ∧
      Indexing.takeAll clock read i files indexing =
        (if AllCut options read (files.map Path.normalize) then .ok () else .error .overflow, after) := by
  induction files generalizing i indexing with
  | nil => exact ⟨indexing, rfl, fits, rfl⟩
  | cons file files ih =>
    intro options
    rw [reached_cons, if_congr allCut_cons rfl rfl]
    cases cut : isCut options read (Path.normalize file) with
    | true =>
      obtain ⟨next, taken, fits⟩ := fits.take (clock i) cut
      have settings : next.engine.config.chunks = options := by
        have kept := (keeps_take indexing (clock i) read (Path.normalize file)).config
        rw [taken] at kept
        exact congrArg Config.chunks kept
      have rest := ih fits (i + 1)
      rw [settings] at rest
      simpa only [Indexing.takeAll, taken, if_true, true_and] using rest
    | false =>
      have aborts : indexing.take (clock i) read (Path.normalize file) = (.error .overflow, indexing) := by
        unfold isCut at cut
        unfold Indexing.take
        split at cut
        · next overflows => rw [overflows]
        · cases cut
      refine ⟨indexing, rfl, fits, ?_⟩
      simp only [Indexing.takeAll, aborts, Bool.false_eq_true, false_and, if_false]

/-- Indexing does not fail, and it only aborts if there is a file that the program does not get past. -/
theorem Fits.index (fits : engine.Fits) (clock : Nat → Nat → Nat) (read : String → Reading)
    (files : List String) :
    Ends engine.config.chunks read files (engine.indexDuring clock read files).1 ∧
      (engine.indexDuring clock read files).2.Fits := by
  obtain ⟨after, _, fits, taken⟩ :=
    takeAll (show (⟨engine, 0, 0, []⟩ : Indexing).engine.Fits from fits) clock read 0 files
  dsimp only at taken
  unfold indexDuring
  rw [taken]
  by_cases all : AllCut engine.config.chunks read (files.map Path.normalize)
  · rw [if_pos all]
    exact ⟨⟨iff_of_true ⟨_, rfl⟩ all, iff_of_false (by simp) (not_not.mpr all)⟩, fits⟩
  · rw [if_neg all]
    exact ⟨⟨iff_of_false (by simp) all, iff_of_true rfl all⟩, fits⟩

end Engine

end CodeAtlas
