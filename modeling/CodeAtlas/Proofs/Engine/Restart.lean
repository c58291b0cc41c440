import CodeAtlas.Proofs.Embedding.Finite
import CodeAtlas.Proofs.Engine.Alike
import CodeAtlas.Proofs.Engine.Session
import CodeAtlas.Proofs.Graph.RoundTrip
import CodeAtlas.Proofs.Index.RoundTrip

namespace CodeAtlas

namespace Engine

variable {engine : Engine} {config : Config} {known texts : List String}

theorem Sound.mono (sound : engine.Sound config known) (more : known ⊆ texts) :
    engine.Sound config texts := by
  have hashes : engine.HoldsHashes texts := by
    refine ⟨⟨sound.hashes.hashes.alone, fun key vector held => ?_⟩, sound.hashes.sized⟩
    obtain ⟨text, listed, hashed⟩ := sound.hashes.hashes.holds key vector held
    exact ⟨text, more listed, hashed⟩
  refine { sound with hashes, records := fun record member => ?_ }
  obtain ⟨chunk, counted, listed, same⟩ := sound.records record member
  exact ⟨chunk, counted, more listed, same⟩

/-- The vectors of texts are read back. -/
def VectorsReadBack (dimension : Nat) (texts : List String) : Prop :=
  ∀ text ∈ texts, ∀ x ∈ Embedding.hash dimension text, Json.ReadsBack x

theorem IsHashed.readable {dimension : Nat} (back : VectorsReadBack dimension known)
    {record : IndexRecord} (hashed : IsHashed dimension known record) : record.Readable := by
  obtain ⟨chunk, counted, listed, rfl⟩ := hashed
  exact ⟨⟨chunk, counted.1, counted.2, rfl⟩, back chunk.content listed⟩

theorem Sound.load_save (sound : engine.Sound config known) (counted : config.dimension < UInt64.size)
    (back : VectorsReadBack (max config.dimension 1) known) :
    VectorIndex.load engine.retriever.index.save = .ok engine.retriever.index := by
  refine VectorIndex.load_save sound.agrees.uniform
    (fun record member => (sound.records record member).readable back) fun n set => ?_
  obtain rfl := Option.some.inj (sound.set.symm.trans set)
  exact Nat.max_lt.mpr ⟨counted, by decide⟩

/-- An engine that holds hash vectors of known texts and nothing else. -/
theorem new_loadEmbeddings_holdsHashes {cache : EmbeddingCache}
    (hashes : ∀ key vector, cache.Holds key vector → ∃ text ∈ known,
      key = EmbeddingCache.keyOf text ∧ vector = Embedding.hash (max config.dimension 1) text)
    (back : VectorsReadBack (max config.dimension 1) known) (now : Nat) :
    ((new config none).loadEmbeddings now (some cache.save)).2.HoldsHashes known := by
  have stored : ∀ entry ∈ cache.entries, ∀ x ∈ entry.value, Json.ReadsBack x := by
    intro entry member
    obtain ⟨text, listed, _, hashed⟩ := hashes entry.key entry.value ⟨entry, member, rfl, rfl⟩
    rw [hashed]
    exact back text listed
  refine ⟨⟨rfl, fun key vector held => ?_⟩, fun key vector held => ?_⟩
  · obtain ⟨text, listed, keyed, hashed⟩ :=
      hashes key vector (EmbeddingCache.holds_of_load stored held)
    exact ⟨text, listed, max config.dimension 1, keyed, hashed⟩
  · obtain ⟨text, _, _, rfl⟩ := hashes key vector (EmbeddingCache.holds_of_load stored held)
    exact Embedding.length_hash ..

/-- What is taken up if everything can be read. -/
theorem restore_eq {graph : Graph} (wellFormed : graph.WellFormed) {index : VectorIndex}
    (loaded : VectorIndex.load index.save = .ok index)
    (set : index.dimension = some (max config.dimension 1)) (cache : EmbeddingCache) (now : Nat) :
    let warm := (new config none).loadEmbeddings now (some cache.save)
    (new config none).restore now ⟨some graph.save, some index.save, some cache.save⟩ =
      (⟨true, index.records.length, warm.1⟩,
        { warm.2.attach graph with retriever := ⟨index, some graph⟩ }) := by
  have attached : (new config none).restoreGraph (some graph.save) =
      (true, (new config none).attach graph) := by
    unfold restoreGraph
    rw [Option.bind_some, wellFormed.load?_save]
  have accepted : ((new config none).attach graph).accepts index = true := by
    unfold accepts
    rw [set]
    exact beq_self_eq_true (max config.dimension 1)
  have taken : ((new config none).attach graph).restoreIndex (some index.save) =
      (index.records.length, ((new config none).attach graph).withIndex index) := by
    unfold restoreIndex
    rw [Option.map_some, loaded]
    exact if_pos accepted
  unfold restore
  simp only [attached, taken]
  rfl

/-- An engine that takes up the state of another one is like it. -/
theorem Sound.restore (sound : engine.Sound config known) (counted : config.dimension < UInt64.size)
    (back : VectorsReadBack (max config.dimension 1) known) {graph : Graph}
    (attached : engine.retriever.graph = some graph) {cache : EmbeddingCache}
    (hashes : ∀ key vector, cache.Holds key vector → ∃ text ∈ known,
      key = EmbeddingCache.keyOf text ∧ vector = Embedding.hash (max config.dimension 1) text)
    (now : Nat) :
    let restored := (new config none).restore now
      ⟨some graph.save, some engine.retriever.index.save, some cache.save⟩
    restored.1.graph = true ∧ restored.1.vectors = engine.retriever.index.records.length ∧
      Alike config known engine restored.2 := by
  intro restored
  have taken : restored = _ := restore_eq (sound.graph graph attached)
    (sound.load_save counted back) sound.set cache now
  have same : engine.retriever = restored.2.retriever := by
    rw [taken, ← attached]
  have warm : restored.2.HoldsHashes known := by
    rw [taken]
    exact (new_loadEmbeddings_holdsHashes hashes back now).congr rfl
  refine ⟨?_, ?_, sound, ⟨?_, ?_, same ▸ sound.set, ?_, warm, ?_, same ▸ sound.records,
    same ▸ sound.graph⟩, same⟩
  · rw [taken]
  · rw [taken]
  · rw [taken]
    rfl
  · rw [taken]
    rfl
  · exact (new_agrees config none).restore now _
  · exact (new_keepsTruth config none).during (fun _ _ => now) (.restore _)

end Engine

namespace Session

open Engine (VectorsReadBack Event historyTexts changes)

variable {σ : Type} {disk : Disk (StateM σ)} {root : String} {config : Config}
  {known : List String} {session : Session σ}

theorem readText_run (keeps : disk.Keeps (config.places root)) (session : Session σ)
    (path : String) : (Engine.readText disk path).run session.files =
      pure ((session.reads disk path).text?, session.files) :=
  congrArg (((disk.read path).run session.files).1.text?, ·) (keeps.still path session.files)

theorem restoreFrom_run (keeps : disk.Keeps (config.places root)) (session : Session σ)
    (now : Nat) : ((Engine.new config none).restoreFrom disk root now).run session.files =
      ((Engine.new config none).restore now {
        graph := (session.reads disk (config.graphPath root)).text?
        vectors := (session.reads disk (config.vectorsPath root)).text?
        embeddings := (session.reads disk (config.embeddingsPath root)).text? }, session.files) := by
  simp only [Engine.restoreFrom, StateT.run_bind, readText_run keeps, pure_bind]
  rfl

theorem texts_of_mem {options : ChunkOptions} {acts : List Act} {asked : Act}
    (listed : asked ∈ acts) : historyTexts options asked.events ⊆ texts options acts := by
  intro text member
  obtain ⟨event, there, embedded⟩ := List.mem_flatMap.mp member
  exact List.mem_flatMap.mpr ⟨event, List.mem_flatMap.mpr ⟨asked, listed, there⟩, embedded⟩

theorem texts_append (options : ChunkOptions) (first second : List Act) :
    texts options (first ++ second) = texts options first ++ texts options second := by
  simp only [texts, historyTexts, List.flatMap_append]

theorem sound_run {acts : List Act} (sound : session.engine.Sound config known)
    (differ : Embedder.KeysDiffer known) (listed : texts config.chunks acts ⊆ known) :
    (session.run disk root acts).engine.Sound config known := by
  rw [engine_run]
  refine sound.duringAll differ (fun event member => ?_) listed
  obtain ⟨asked, _, there⟩ := List.mem_flatMap.mp member
  exact own_of_mem_events event there

section Saved

variable {acts : List Act} (keeps : disk.Keeps (config.places root))
  (differ : Embedder.KeysDiffer known) (listed : texts config.chunks acts ⊆ known)
  (sound : session.engine.Sound config known)
  (written : (session.run disk root acts).written = true)

include differ listed in
theorem sound_act_of_mem (session : Session σ) (asked : Act) (member : asked ∈ acts)
    (sound : session.engine.Sound config known) :
    (session.act disk root asked).engine.Sound config known :=
  sound_act sound differ (List.Subset.trans (texts_of_mem member) listed)

include keeps differ listed sound written

/-- A graph that was built is on the disk. -/
theorem graphSaved_run (built : ∃ asked ∈ acts, asked.isBuild = true) :
    (session.run disk root acts).GraphSaved disk root config :=
  run_saves (·.engine.Sound config known) (·.GraphSaved disk root config) (·.isBuild = true)
    (sound_act_of_mem differ listed)
    (fun _ _ _ sound written => GraphSaved.act keeps sound.settings written)
    sound written (.inl built)

/-- An index that is saved and not changed is on the disk. -/
theorem indexSaved_run (quiet : ∀ asked ∈ acts, asked.isQuiet = true) (saved : .saveIndex ∈ acts) :
    (session.run disk root acts).IndexSaved disk root config :=
  run_saves (·.engine.Sound config known) (·.IndexSaved disk root config) (· = .saveIndex)
    (sound_act_of_mem differ listed)
    (fun _ asked member sound written =>
      IndexSaved.act keeps sound.settings written (quiet asked member))
    sound written (.inl ⟨_, saved, rfl⟩)

/-- Of the vectors, those that were there when they were last saved are on the disk. -/
theorem embeddingsSaved_run (saved : .saveEmbeddings ∈ acts) :
    (session.run disk root acts).EmbeddingsSaved disk root config known :=
  run_saves (·.engine.Sound config known) (·.EmbeddingsSaved disk root config known)
    (· = .saveEmbeddings) (sound_act_of_mem differ listed)
    (fun _ _ _ sound written => EmbeddingsSaved.act keeps sound.settings written sound)
    sound written (.inl ⟨_, saved, rfl⟩)

end Saved

/-- An engine that takes up what a session left on the disk is like the engine of the session. -/
theorem restoreFrom_alike (keeps : disk.Keeps (config.places root))
    (counted : config.dimension < UInt64.size)
    (back : VectorsReadBack (max config.dimension 1) known)
    (sound : session.engine.Sound config known) (graph : session.GraphSaved disk root config)
    (index : session.IndexSaved disk root config)
    (embeddings : session.EmbeddingsSaved disk root config known) (now : Nat) :
    let restored := (((Engine.new config none).restoreFrom disk root now).run session.files).1
    restored.1.graph = true ∧
      restored.1.vectors = session.engine.retriever.index.records.length ∧
      Engine.Alike config known session.engine restored.2 := by
  obtain ⟨graph, attached, graph_there⟩ := graph
  obtain ⟨cache, cache_there, hashes⟩ := embeddings
  rw [restoreFrom_run keeps, graph_there, cache_there]
  unfold IndexSaved at index
  rw [index]
  exact sound.restore counted back attached hashes now

/-- The graph and the index have to be on the disk as they are in the end, the vectors as they were at
some time. -/
theorem restoreFrom_run_alike (keeps : disk.Keeps (config.places root))
    (counted : config.dimension < UInt64.size) (files : σ) {earlier later : List Act}
    (built : ∃ asked ∈ earlier, asked.isBuild = true)
    (quiet : ∀ asked ∈ later, asked.isQuiet = true) (savedIndex : .saveIndex ∈ later)
    (savedEmbeddings : .saveEmbeddings ∈ later)
    (written : ((start config files).run disk root (earlier ++ later)).written = true)
    (back : VectorsReadBack (max config.dimension 1) (texts config.chunks (earlier ++ later)))
    (differ : Embedder.KeysDiffer (texts config.chunks (earlier ++ later))) (now : Nat) :
    let session := (start config files).run disk root (earlier ++ later)
    let restored := (((Engine.new config none).restoreFrom disk root now).run session.files).1
    restored.1.graph = true ∧
      restored.1.vectors = session.engine.retriever.index.records.length ∧
      Engine.Alike config (texts config.chunks (earlier ++ later)) session.engine restored.2 := by
  intro session restored
  let known := texts config.chunks (earlier ++ later)
  have all : known ⊆ known := List.Subset.refl known
  obtain ⟨before, after⟩ : texts config.chunks earlier ⊆ known ∧ texts config.chunks later ⊆ known :=
    List.append_subset.mp (texts_append config.chunks earlier later ▸ all)
  have fresh : (start config files).engine.Sound config known := Engine.new_sound config known
  have halfway : ((start config files).run disk root earlier).engine.Sound config known :=
    sound_run fresh differ before
  have graph : session.GraphSaved disk root config := by
    refine graphSaved_run keeps differ all fresh written ?_
    obtain ⟨asked, there, builds⟩ := built
    exact ⟨asked, List.mem_append_left later there, builds⟩
  have index : session.IndexSaved disk root config := by
    -- An index that was saved before the last change is out of date, so only `later` counts.
    have parts : session = ((start config files).run disk root earlier).run disk root later :=
      run_append (start config files) earlier later
    rw [parts]
    exact indexSaved_run keeps differ after halfway (parts ▸ written) quiet savedIndex
  have embeddings : session.EmbeddingsSaved disk root config known :=
    embeddingsSaved_run keeps differ all fresh written (List.mem_append_right earlier savedEmbeddings)
  exact restoreFrom_alike keeps counted back (sound_run fresh differ all) graph index embeddings now

/-- An engine starts without anything and is asked for things; sooner or later it builds a graph, and
after its last change it saves its index and its vectors. Then an engine that takes up what is on the
disk has the same graph and the same index. From then on both may be asked for whatever and changed in
the same ways, and they find the same and answer the same. -/
theorem restart_transparent [Machine] (keeps : disk.Keeps (config.places root))
    (counted : config.dimension < UInt64.size) (files : σ) (earlier later : List Act)
    (built : ∃ asked ∈ earlier, asked.isBuild = true)
    (quiet : ∀ asked ∈ later, asked.isQuiet = true) (savedIndex : .saveIndex ∈ later)
    (savedEmbeddings : .saveEmbeddings ∈ later)
    (written : ((start config files).run disk root (earlier ++ later)).written = true)
    (back : ∀ text ∈ texts config.chunks (earlier ++ later),
      ∀ x ∈ Embedding.hash (max config.dimension 1) text, x.isFinite = true → Json.ReadsBack x)
    (history history' : List Event) (own : ∀ event ∈ history ++ history', event.2.isOwn = true)
    (same : changes history = changes history') (query : String)
    (differ : Embedder.KeysDiffer (texts config.chunks (earlier ++ later) ++
      historyTexts config.chunks (history ++ history') ++ [query])) (now : Nat) :
    let session := (start config files).run disk root (earlier ++ later)
    let restored := (((Engine.new config none).restoreFrom disk root now).run session.files).1
    let first := session.engine.duringAll history
    let second := restored.2.duringAll history'
    (restored.1.graph = true ∧
        restored.1.vectors = session.engine.retriever.index.records.length ∧
        restored.2.retriever = session.engine.retriever) ∧
      (∀ clock clock' limit, (second.searchDuring clock' query limit).1 =
        (first.searchDuring clock query limit).1) ∧
      ∀ clock clock' question id, (second.askDuring clock' question id).1 =
        (first.askDuring clock question id).1 := by
  intro session restored first second
  let before := texts config.chunks (earlier ++ later)
  let all := before ++ historyTexts config.chunks (history ++ history') ++ [query]
  have more : before ⊆ all :=
    List.subset_append_of_subset_left _ (List.subset_append_left ..)
  have differ' : Embedder.KeysDiffer before := fun first inFirst second inSecond =>
    differ first (more inFirst) second (more inSecond)
  have vectors : VectorsReadBack (max config.dimension 1) before := fun text listed x member =>
    back text listed x member (Embedding.isFinite_of_mem_hash member)
  obtain ⟨graph, count, alike⟩ := restoreFrom_run_alike keeps counted files built quiet savedIndex
    savedEmbeddings written vectors differ' now
  have alike : Engine.Alike config all session.engine restored.2 :=
    ⟨alike.first.mono more, alike.second.mono more, alike.retriever⟩
  have after : Engine.Alike config all first second :=
    alike.duringAll differ own
      (List.subset_append_of_subset_left _ (List.subset_append_right ..)) same
  have listed : query ∈ all := List.mem_append_right _ (List.mem_singleton_self query)
  exact ⟨⟨graph, count, alike.retriever.symm⟩,
    fun clock clock' limit => (after.search differ listed clock clock' limit).symm,
    fun clock clock' question id => (after.ask clock clock' question id).symm⟩

/-- The state is saved while vectors and answers still come in. Afterwards the first engine is asked
for something before the file is indexed anew, and the second one is not. -/
theorem restart_transparent_memory :
    let config := { Config.default with dimension := 0 }
    let read : String → Reading := fun path => if path = "a.txt" then .text "one\n" else .missing
    let earlier : List Act := [.index (fun i j => i + j) read ["a.txt"], .build read ["a.txt"]]
    let later : List Act := [.saveEmbeddings, .search id "two" 3, .saveIndex, .ask id .callers "a"]
    let session := (start config fun _ => .missing).run Disk.memory "/p" (earlier ++ later)
    let restored :=
      (((Engine.new config none).restoreFrom Disk.memory "/p" 5).run session.files).1
    let change : Event := (fun _ _ => 9, .index read ["a.txt", "b.txt"])
    let first := session.engine.duringAll [(fun _ _ => 8, .search "three" 1), change]
    let second := restored.2.duringAll [change]
    (session.written = true ∧
        Embedder.KeysDiffer (texts config.chunks (earlier ++ later) ++
          historyTexts config.chunks [(fun _ _ => 8, .search "three" 1), change, change] ++
          ["one"])) ∧
      (restored.1.graph = true ∧ restored.2.retriever = session.engine.retriever) ∧
      (second.searchDuring id "one" 2).1 = (first.searchDuring id "one" 2).1 := by
  intro config read earlier later session restored change first second
  have written : session.written = true := rfl
  have differ : Embedder.KeysDiffer (texts config.chunks (earlier ++ later) ++
      historyTexts config.chunks [(fun _ _ => 8, .search "three" 1), change, change] ++ ["one"]) :=
    Embedder.keysDiffer_of_nodup (by decide +kernel)
  have back : ∀ text ∈ texts config.chunks (earlier ++ later),
      ∀ x ∈ Embedding.hash (max config.dimension 1) text, x.isFinite = true → Json.ReadsBack x := by
    unfold Json.ReadsBack
    decide +kernel
  have alike := restart_transparent (Disk.memory_keeps config "/p") (by decide) (fun _ => .missing)
    earlier later (by decide) (by decide) (by simp [later]) (by simp [later]) written back
    [(fun _ _ => 8, .search "three" 1), change] [change] (by decide) rfl "one" differ 5
  exact ⟨⟨written, differ⟩, ⟨alike.1.1, alike.1.2.2⟩, alike.2.1 id id 2⟩

end Session

end CodeAtlas
