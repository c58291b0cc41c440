import CodeAtlas.Engine.Session
import CodeAtlas.Proofs.Engine.Sound

namespace CodeAtlas

/-- Reading changes nothing on the disk, and what is read at one of the places is the text that was
saved there last. -/
structure Disk.Keeps {σ : Type} (disk : Disk (StateM σ)) (places : List SavePlace) : Prop where
  still : ∀ path files, ((disk.read path).run files).2 = files
  saved : ∀ place ∈ places, ∀ text files, ((disk.save place text).run files).1 = true →
    ((disk.read place.path).run ((disk.save place text).run files).2).1 = .text text
  others : ∀ place ∈ places, ∀ other ∈ places, other.path ≠ place.path → ∀ text files,
    ((disk.save place text).run files).1 = true →
    ((disk.read other.path).run ((disk.save place text).run files).2).1 =
      ((disk.read other.path).run files).1

namespace Config

section Places

variable {base first second : String}

theorem below_ne (relative : first.startsWith "/" = false) (relative' : second.startsWith "/" = false)
    (differ : first ≠ second) : Path.below base first ≠ Path.below base second := by
  unfold Path.below
  simp only [relative, relative', Bool.false_eq_true, if_false]
  split
  · exact fun same => differ ((String.append_right_inj _).mp same)
  · exact fun same => differ ((String.append_right_inj _).mp same)

theorem below_append (relative : first.startsWith "/" = false)
    (relative' : (first ++ second).startsWith "/" = false) :
    Path.below base first ++ second = Path.below base (first ++ second) := by
  unfold Path.below
  simp only [relative, relative', Bool.false_eq_true, if_false]
  split
  · exact String.append_assoc ..
  · exact String.append_assoc ..

end Places

theorem graphPath_ne_vectorsPath (config : Config) (root : String) :
    config.graphPath root ≠ config.vectorsPath root := below_ne (by simp) (by simp) (by decide)

theorem graphPath_ne_embeddingsPath (config : Config) (root : String) :
    config.graphPath root ≠ config.embeddingsPath root := below_ne (by simp) (by simp) (by decide)

theorem vectorsPath_ne_embeddingsPath (config : Config) (root : String) :
    config.vectorsPath root ≠ config.embeddingsPath root := below_ne (by simp) (by simp) (by decide)

/-- The places of the state of a project. -/
def places (config : Config) (root : String) : List SavePlace :=
  [config.graphPlace root, config.vectorsPlace root, config.embeddingsPlace root]

theorem graphPlace_mem (config : Config) (root : String) :
    config.graphPlace root ∈ config.places root := .head _

theorem vectorsPlace_mem (config : Config) (root : String) :
    config.vectorsPlace root ∈ config.places root := .tail _ (.head _)

theorem embeddingsPlace_mem (config : Config) (root : String) :
    config.embeddingsPlace root ∈ config.places root := .tail _ (.tail _ (.head _))

/-- No text is ever moved away from one of the places. -/
theorem temporary_ne_path (config : Config) (root : String) :
    ∀ place ∈ config.places root, ∀ other ∈ config.places root, place.temporary ≠ other.path := by
  have graph : config.graphPath root ++ ".tmp" = Path.below (config.stateIn root) "graph.json.tmp" :=
    below_append (by simp) (by simp)
  have vectors : config.vectorsPath root ++ ".tmp" =
      Path.below (config.stateIn root) "vectors.json.tmp" := below_append (by simp) (by simp)
  intro place listed other asked
  simp only [places, List.mem_cons, List.not_mem_nil, or_false] at listed asked
  rcases listed with rfl | rfl | rfl <;> rcases asked with rfl | rfl | rfl <;>
    simp only [graphPlace, vectorsPlace, embeddingsPlace, graph, vectors] <;>
    exact below_ne (by simp) (by simp) (by decide)

end Config

/-- A disk on which a text can be saved at every path. -/
def Disk.memory : Disk (StateM (String → Reading)) where
  canonical? path := do
    match (← get) path with
    | .text _ => return some path
    | _ => return none
  isFile path := do
    match (← get) path with
    | .text _ => return true
    | _ => return false
  read path := do return (← get) path
  bytes? path := do
    match (← get) path with
    | .text content => return some content.toUTF8
    | _ => return none
  list _ := return []
  save place text := do
    modify fun files path =>
      if path = place.path then .text text
      else if path = place.temporary then .missing
      else files path
    return true

theorem Disk.memory_keeps (config : Config) (root : String) :
    Disk.memory.Keeps (config.places root) where
  still _ _ := rfl
  saved place _ text files _ := if_pos rfl
  others place listed other asked apart text files _ := by
    have moved := config.temporary_ne_path root place listed other asked
    exact (if_neg apart).trans (if_neg moved.symm)

/-- An engine and what its disk holds. -/
structure Session (σ : Type) where
  engine : Engine
  files : σ
  /-- Whether all that was to be saved was saved. -/
  written : Bool

namespace Session

/-- What is asked of an engine in a session. Building a graph saves it too. -/
inductive Act where
  | build (read : String → Reading) (files : List String)
  | index (clock : Nat → Nat → Nat) (read : String → Reading) (files : List String)
  | search (clock : Nat → Nat) (query : String) (limit : Nat)
  | ask (clock : Nat → Nat) (query : GraphQuery) (id : String)
  | saveIndex
  | saveEmbeddings

/-- The operations on the engine itself. -/
def Act.events : Act → List Engine.Event
  | .build read files => [(fun _ _ => 0, .build read files)]
  | .index clock read files => [(clock, .index read files)]
  | .search clock query limit => [(fun _ => clock, .search query limit)]
  | .ask clock query id => [(fun _ => clock, .ask query id)]
  | .saveIndex | .saveEmbeddings => []

def Act.isBuild : Act → Bool
  | .build _ _ => true
  | _ => false

/-- Whether the graph and the index stay as they are. -/
def Act.isQuiet (act : Act) : Bool := act.events.all (·.2.isQuiet)

/-- Where something is saved. -/
def Act.place? (config : Config) (root : String) : Act → Option SavePlace
  | .build _ _ => some (config.graphPlace root)
  | .saveIndex => some (config.vectorsPlace root)
  | .saveEmbeddings => some (config.embeddingsPlace root)
  | _ => none

/-- The texts that are embedded in a session. -/
def texts (options : ChunkOptions) (acts : List Act) : List String :=
  Engine.historyTexts options (acts.flatMap Act.events)

variable {σ : Type}

def start (config : Config) (files : σ) : Session σ := ⟨.new config none, files, true⟩

def act (disk : Disk (StateM σ)) (root : String) (session : Session σ) : Act → Session σ
  | .build read files =>
    let (((_, _, written), engine), after) :=
      (session.engine.buildAndSave disk root read files).run session.files
    ⟨engine, after, session.written && written⟩
  | .index clock read files =>
    { session with engine := (session.engine.indexDuring clock read files).2 }
  | .search clock query limit =>
    { session with engine := (session.engine.searchDuring clock query limit).2 }
  | .ask clock query id => { session with engine := (session.engine.askDuring clock query id).2 }
  | .saveIndex =>
    let (written, after) := (session.engine.saveIndex disk root).run session.files
    { session with files := after, written := session.written && written }
  | .saveEmbeddings =>
    let (written, after) := (session.engine.saveEmbeddings disk root).run session.files
    { session with files := after, written := session.written && written }

def run (disk : Disk (StateM σ)) (root : String) (session : Session σ) (acts : List Act) :
    Session σ := acts.foldl (act disk root) session

variable {disk : Disk (StateM σ)} {root : String} {config : Config} {known : List String}
  {session : Session σ}

theorem own_of_mem_events {act : Act} : ∀ event ∈ act.events, event.2.isOwn = true := by
  cases act <;> simp [Act.events, Engine.Operation.isOwn]

theorem engine_act (session : Session σ) (act : Act) :
    (session.act disk root act).engine = session.engine.duringAll act.events := by
  cases act <;> rfl

theorem engine_run (session : Session σ) (acts : List Act) :
    (session.run disk root acts).engine = session.engine.duringAll (acts.flatMap Act.events) := by
  induction acts generalizing session with
  | nil => rfl
  | cons act acts ih =>
    have rest := ih (session.act disk root act)
    rw [engine_act] at rest
    rw [List.flatMap_cons, Engine.duringAll, List.foldl_append]
    exact rest

/-- A text goes to its place on the disk. -/
def save (disk : Disk (StateM σ)) (session : Session σ) (place : SavePlace) (text : String) :
    Session σ :=
  let (written, after) := (disk.save place text).run session.files
  { session with files := after, written := session.written && written }

theorem act_build (session : Session σ) (read : String → Reading) (files : List String) :
    session.act disk root (.build read files) =
      save disk { session with engine := (session.engine.build read files).2 }
        (session.engine.config.graphPlace root) (session.engine.build read files).1.1.save := rfl

theorem act_saveIndex (session : Session σ) :
    session.act disk root .saveIndex =
      session.save disk (session.engine.config.vectorsPlace root)
        session.engine.retriever.index.save := rfl

theorem act_saveEmbeddings (session : Session σ) :
    session.act disk root .saveEmbeddings =
      session.save disk (session.engine.config.embeddingsPlace root)
        (EmbeddingCache.save session.engine.embedder.cache) := rfl

/-- What is read at a path. -/
def reads (disk : Disk (StateM σ)) (session : Session σ) (path : String) : Reading :=
  ((disk.read path).run session.files).1

section Disk

variable {place other : SavePlace} {text : String}

theorem written_of_save (written : (session.save disk place text).written = true) :
    session.written = true ∧ ((disk.save place text).run session.files).1 = true :=
  Bool.and_eq_true_iff.mp written

theorem reads_save (keeps : disk.Keeps (config.places root)) (listed : place ∈ config.places root)
    (written : (session.save disk place text).written = true) :
    (session.save disk place text).reads disk place.path = .text text :=
  keeps.saved place listed text session.files (written_of_save written).2

theorem reads_save_other (keeps : disk.Keeps (config.places root))
    (listed : place ∈ config.places root) (asked : other ∈ config.places root)
    (apart : other.path ≠ place.path) (written : (session.save disk place text).written = true) :
    (session.save disk place text).reads disk other.path = session.reads disk other.path :=
  keeps.others place listed other asked apart text session.files (written_of_save written).2

end Disk

/-- There is a graph, and it is the one on the disk. -/
def GraphSaved (disk : Disk (StateM σ)) (root : String) (config : Config)
    (session : Session σ) : Prop :=
  ∃ graph, session.engine.retriever.graph = some graph ∧
    session.reads disk (config.graphPath root) = .text graph.save

/-- The index of the engine is the one on the disk. -/
def IndexSaved (disk : Disk (StateM σ)) (root : String) (config : Config)
    (session : Session σ) : Prop :=
  session.reads disk (config.vectorsPath root) = .text session.engine.retriever.index.save

/-- A cache is on the disk that holds hash vectors of known texts and nothing else. -/
def EmbeddingsSaved (disk : Disk (StateM σ)) (root : String) (config : Config) (known : List String)
    (session : Session σ) : Prop :=
  ∃ cache : EmbeddingCache, session.reads disk (config.embeddingsPath root) = .text cache.save ∧
    ∀ key vector, cache.Holds key vector → ∃ text ∈ known, key = EmbeddingCache.keyOf text ∧
      vector = Embedding.hash (max config.dimension 1) text

section Steps

variable {asked : Act}

theorem sound_act (sound : session.engine.Sound config known) (differ : Embedder.KeysDiffer known)
    (listed : Engine.historyTexts config.chunks asked.events ⊆ known) :
    (session.act disk root asked).engine.Sound config known := by
  rw [engine_act]
  exact sound.duringAll differ own_of_mem_events listed

theorem retriever_act (quiet : asked.isQuiet = true) :
    (session.act disk root asked).engine.retriever = session.engine.retriever := by
  rw [engine_act]
  exact session.engine.retriever_duringAll fun event member => List.all_eq_true.mp quiet event member

variable (keeps : disk.Keeps (config.places root)) (settings : session.engine.config = config)
  (written : (session.act disk root asked).written = true)

include keeps settings written

theorem reads_act {place : SavePlace} (listed : place ∈ config.places root)
    (apart : ∀ other ∈ asked.place? config root, place.path ≠ other.path) :
    (session.act disk root asked).reads disk place.path = session.reads disk place.path := by
  subst settings
  cases asked with
  | build read files =>
    rw [act_build] at written ⊢
    exact reads_save_other keeps (Config.graphPlace_mem _ root) listed (apart _ rfl) written
  | index clock read files => rfl
  | search clock query limit => rfl
  | ask clock query id => rfl
  | saveIndex =>
    rw [act_saveIndex] at written ⊢
    exact reads_save_other keeps (Config.vectorsPlace_mem _ root) listed (apart _ rfl) written
  | saveEmbeddings =>
    rw [act_saveEmbeddings] at written ⊢
    exact reads_save_other keeps (Config.embeddingsPlace_mem _ root) listed (apart _ rfl) written

/-- Building a graph saves it, and nothing else changes it. -/
theorem GraphSaved.act (saved : asked.isBuild = true ∨ session.GraphSaved disk root config) :
    (session.act disk root asked).GraphSaved disk root config := by
  by_cases building : asked.isBuild = true
  · subst settings
    cases asked with
    | build read files =>
      rw [act_build] at written ⊢
      exact ⟨_, rfl, reads_save keeps (Config.graphPlace_mem _ root) written⟩
    | _ => cases building
  · obtain ⟨graph, attached, there⟩ := saved.resolve_left building
    refine ⟨graph, ?_, (reads_act keeps settings written (config.graphPlace_mem root) ?_).trans there⟩
    · cases asked with
      | build read files => exact absurd rfl building
      | index clock read files =>
        exact (session.engine.index_sameAnswers clock read files).graph.trans attached
      | _ => exact (congrArg Retriever.graph (retriever_act rfl)).trans attached
    · cases asked with
      | build read files => exact absurd rfl building
      | saveIndex =>
        rintro other ⟨⟩
        exact config.graphPath_ne_vectorsPath root
      | saveEmbeddings =>
        rintro other ⟨⟩
        exact config.graphPath_ne_embeddingsPath root
      | _ => exact fun _ nothing => nomatch nothing

theorem IndexSaved.act (quiet : asked.isQuiet = true)
    (saved : asked = .saveIndex ∨ session.IndexSaved disk root config) :
    (session.act disk root asked).IndexSaved disk root config := by
  by_cases saving : asked = .saveIndex
  · subst settings saving
    rw [act_saveIndex] at written ⊢
    exact reads_save keeps (Config.vectorsPlace_mem _ root) written
  · have there := saved.resolve_left saving
    unfold IndexSaved
    rw [retriever_act quiet]
    refine (reads_act keeps settings written (config.vectorsPlace_mem root) ?_).trans there
    cases asked with
    | build read files => cases quiet
    | saveIndex => exact absurd rfl saving
    | saveEmbeddings =>
      rintro other ⟨⟩
      exact config.vectorsPath_ne_embeddingsPath root
    | _ => exact fun _ nothing => nomatch nothing

theorem EmbeddingsSaved.act (sound : session.engine.Sound config known)
    (saved : asked = .saveEmbeddings ∨ session.EmbeddingsSaved disk root config known) :
    (session.act disk root asked).EmbeddingsSaved disk root config known := by
  by_cases saving : asked = .saveEmbeddings
  · subst settings saving
    rw [act_saveEmbeddings] at written ⊢
    refine ⟨session.engine.embedder.cache,
      reads_save keeps (Config.embeddingsPlace_mem _ root) written, ?_⟩
    intro key vector held
    rw [← sound.dimension]
    exact sound.hashes.vector_eq held
  · obtain ⟨cache, there, hashes⟩ := saved.resolve_left saving
    refine ⟨cache, ?_, hashes⟩
    refine (reads_act keeps settings written (config.embeddingsPlace_mem root) ?_).trans there
    cases asked with
    | build read files =>
      rintro other ⟨⟩
      exact (config.graphPath_ne_embeddingsPath root).symm
    | saveIndex =>
      rintro other ⟨⟩
      exact (config.vectorsPath_ne_embeddingsPath root).symm
    | saveEmbeddings => exact absurd rfl saving
    | _ => exact fun _ nothing => nomatch nothing

end Steps

section Runs

variable {acts : List Act}

theorem written_of_act {asked : Act} (written : (session.act disk root asked).written = true) :
    session.written = true := by
  cases asked with
  | build read files =>
    rw [act_build] at written
    exact (written_of_save written).1
  | saveIndex =>
    rw [act_saveIndex] at written
    exact (written_of_save written).1
  | saveEmbeddings =>
    rw [act_saveEmbeddings] at written
    exact (written_of_save written).1
  | _ => exact written

theorem written_of_run (written : (session.run disk root acts).written = true) :
    session.written = true := by
  induction acts generalizing session with
  | nil => exact written
  | cons asked acts ih => exact written_of_act (ih written)

theorem run_append (session : Session σ) (first second : List Act) :
    session.run disk root (first ++ second) = (session.run disk root first).run disk root second :=
  List.foldl_append

/-- What certain acts bring about and no act undoes is so after the first of them. -/
theorem run_saves (holds saved : Session σ → Prop) (saves : Act → Prop)
    (stays : ∀ session : Session σ, ∀ asked ∈ acts, holds session →
      holds (session.act disk root asked))
    (step : ∀ session : Session σ, ∀ asked ∈ acts, holds session →
      (session.act disk root asked).written = true → saves asked ∨ saved session →
      saved (session.act disk root asked))
    (start : holds session) (written : (session.run disk root acts).written = true)
    (sometime : (∃ asked ∈ acts, saves asked) ∨ saved session) :
    saved (session.run disk root acts) := by
  induction acts generalizing session with
  | nil => exact sometime.resolve_left fun nothing => nomatch nothing
  | cons asked acts ih =>
    have first := step session asked List.mem_cons_self start (written_of_run written)
    refine ih (fun session other later => stays session other (List.mem_cons_of_mem asked later))
      (fun session other later => step session other (List.mem_cons_of_mem asked later))
      (stays session asked List.mem_cons_self start) written ?_
    -- Either this act saves, or a later one will, or it was saved before and stays so.
    rcases sometime with ⟨other, listed, saving⟩ | already
    · rcases List.mem_cons.mp listed with rfl | later
      · exact .inr (first (.inl saving))
      · exact .inl ⟨other, later, saving⟩
    · exact .inr (first (.inr already))

end Runs

end Session

end CodeAtlas
