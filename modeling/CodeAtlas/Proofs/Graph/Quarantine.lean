import CodeAtlas.Proofs.Graph.RoundTrip
import CodeAtlas.Proofs.Json.Settled
import CodeAtlas.Proofs.List.Made
import Mathlib.Data.List.ReduceOption

namespace CodeAtlas

theorem SymbolKind.ofName?_eq_some_iff {text : String} {kind : SymbolKind} :
    ofName? text = some kind ↔ text = kind.name := by
  refine ⟨fun known => ?_, fun same => same ▸ kind.ofName?_name⟩
  unfold ofName? at known
  split at known <;> cases known <;> rfl

theorem NodeType.ofName?_eq_some_iff {text : String} {type : NodeType} :
    ofName? text = some type ↔ text = type.name := by
  refine ⟨fun known => ?_, fun same => same ▸ type.ofName?_name⟩
  unfold ofName? at known
  split at known
  · next same =>
    obtain rfl := Option.some.inj known
    exact same
  · obtain ⟨kind, named, rfl⟩ := Option.map_eq_some_iff.mp known
    exact SymbolKind.ofName?_eq_some_iff.mp named

theorem EdgeType.ofName?_eq_some_iff {text : String} {type : EdgeType} :
    ofName? text = some type ↔ text = type.name := by
  refine ⟨fun known => ?_, fun same => same ▸ type.ofName?_name⟩
  unfold ofName? at known
  split at known <;> cases known <;> rfl

namespace Graph

open Json

section Entries

/-- The entry is well-formed and tells of the node. -/
def TellsNode (entry : Json) (node : GraphNode) : Prop :=
  ∃ type path exported,
    entry.fields? ["id", "label", "type", "path", "exported"] =
        some [some (.string node.id), some (.string node.label), some type, path, exported] ∧
      IsWord node.type.name type ∧ MayHold path (node.path.map .string) ∧
      MayHold exported (node.exported.map .bool)

/-- The entry is well-formed and tells of the relation. -/
def TellsEdge (entry : Json) (edge : GraphEdge) : Prop :=
  ∃ type,
    entry.fields? ["source", "target", "type"] =
        some [some (.string edge.source), some (.string edge.target), some type] ∧
      IsWord edge.type.name type

/-- What the well-formed ones of some entries tell of, in their order. -/
inductive Selects {α : Type} (tells : Json → α → Prop) : List Json → List α → Prop
  | nil : Selects tells [] []
  | told {entry : Json} {x : α} {entries : List Json} {xs : List α} (here : tells entry x)
      (rest : Selects tells entries xs) : Selects tells (entry :: entries) (x :: xs)
  | malformed {entry : Json} {entries : List Json} {xs : List α} (none : ∀ x, ¬ tells entry x)
      (rest : Selects tells entries xs) : Selects tells (entry :: entries) xs

/-- What stands under a key of the text as a whole: a list of values, or nothing. -/
inductive Lists : Option Document → List Json → Prop
  | none : Lists none []
  | array {items : List Document} {entries : List Json}
      (each : items.mapM (Document.toJson? (maxDepth - 2)) = some entries) :
      Lists (some (.array items)) entries

/-- The text lists these entries for nodes and for relations. -/
def HasEntries (text : String) (nodes edges : List Json) : Prop :=
  ∃ document first second, Document.parse? text = some document ∧
    Decoder.fields? ["nodes", "edges"] document = some [first, second] ∧
    Lists first nodes ∧ Lists second edges

variable {document : Document} {entry : Json}

theorem nodeDecoder_eq_some_iff (settles : SettlesTo document entry) (depth : Nat)
    (node : GraphNode) : nodeDecoder (depth + 2) document = some node ↔ TellsNode entry node := by
  have related := settles.fields? ["id", "label", "type", "path", "exported"]
  have counted := length_fields? ["id", "label", "type", "path", "exported"] entry
  rw [nodeDecoder, Decoder.record, TellsNode]
  generalize Decoder.fields? _ document = read, entry.fields? _ = held at related counted
  cases related with
  | none => simp
  | some all =>
    -- One field for each name is left; another number of them would not fit.
    have length := counted _ rfl
    rcases all with _ | ⟨id, _ | ⟨label, _ | ⟨type, _ | ⟨path, _ | ⟨exported, _ | _⟩⟩⟩⟩⟩ <;>
      simp only [List.length_cons, List.length_nil, Nat.reduceAdd, Nat.reduceEqDiff] at length
    have ids := tells_string.required id depth
    have labels := tells_string.required label depth
    have types := (tells_word fun _ _ => NodeType.ofName?_eq_some_iff).required type depth
    have paths := tells_string.mayHold (by simp) path depth
    have flags := tells_bool.mayHold (by simp) exported depth
    simp only [Option.bind_eq_bind, Option.bind_some, Option.pure_def, Option.bind_eq_some_iff, ids,
      labels, types, paths, flags, Option.some.injEq, List.cons.injEq]
    constructor
    · rintro ⟨_, ⟨_, rfl, rfl⟩, _, ⟨_, rfl, rfl⟩, _, ⟨word, rfl, named⟩, _, path, _, exported, rfl⟩
      exact ⟨word, _, _, ⟨rfl, rfl, rfl, rfl, rfl, trivial⟩, named, path, exported⟩
    · rintro ⟨word, _, _, ⟨rfl, rfl, rfl, rfl, rfl, _⟩, named, path, exported⟩
      exact ⟨_, ⟨_, rfl, rfl⟩, _, ⟨_, rfl, rfl⟩, _, ⟨word, rfl, named⟩, _, path, _, exported, rfl⟩

theorem edgeDecoder_eq_some_iff (settles : SettlesTo document entry) (depth : Nat)
    (edge : GraphEdge) : edgeDecoder (depth + 2) document = some edge ↔ TellsEdge entry edge := by
  have related := settles.fields? ["source", "target", "type"]
  have counted := length_fields? ["source", "target", "type"] entry
  rw [edgeDecoder, Decoder.record, TellsEdge]
  generalize Decoder.fields? _ document = read, entry.fields? _ = held at related counted
  cases related with
  | none => simp
  | some all =>
    have length := counted _ rfl
    rcases all with _ | ⟨source, _ | ⟨target, _ | ⟨type, _ | _⟩⟩⟩ <;>
      simp only [List.length_cons, List.length_nil, Nat.reduceAdd, Nat.reduceEqDiff] at length
    have sources := tells_string.required source depth
    have targets := tells_string.required target depth
    have types := (tells_word fun _ _ => EdgeType.ofName?_eq_some_iff).required type depth
    simp only [Option.bind_eq_bind, Option.bind_some, Option.pure_def, Option.bind_eq_some_iff,
      sources, targets, types, Option.some.injEq, List.cons.injEq]
    constructor
    · rintro ⟨_, ⟨_, rfl, rfl⟩, _, ⟨_, rfl, rfl⟩, _, ⟨word, rfl, named⟩, rfl⟩
      exact ⟨word, ⟨rfl, rfl, rfl, trivial⟩, named⟩
    · rintro ⟨word, ⟨rfl, rfl, rfl, _⟩, named⟩
      exact ⟨_, ⟨_, rfl, rfl⟩, _, ⟨_, rfl, rfl⟩, _, ⟨word, rfl, named⟩, rfl⟩

/-- What is decoded of the settled documents of some entries is what the entries tell of. -/
theorem selects_reduceOption {α : Type} {tells : Json → α → Prop} {decode : Document → Option α}
    (each : ∀ document entry, SettlesTo document entry →
      ∀ x, decode document = some x ↔ tells entry x)
    {documents : List Document} {entries : List Json} (all : documents.Forall₂ SettlesTo entries) :
    Selects tells entries (documents.map decode).reduceOption := by
  induction all with
  | nil => exact .nil
  | @cons document entry _ _ settles _ ih =>
    rw [List.map_cons]
    cases told : decode document with
    | none =>
      rw [List.reduceOption_cons_of_none]
      refine .malformed (fun x told' => ?_) ih
      rw [← each document entry settles, told] at told'
      cases told'
    | some x =>
      rw [List.reduceOption_cons_of_some]
      exact .told ((each document entry settles x).mp told) ih

theorem exists_values {depth : Nat} {items settled : List Document}
    (read : items.Forall₂ (fun item one => entryDecoder depth item = some one) settled) :
    ∃ entries, items.mapM (Document.toJson? depth) = some entries ∧
      settled.Forall₂ SettlesTo entries := by
  induction read with
  | nil => exact ⟨[], rfl, .nil⟩
  | @cons item one _ _ head _ ih =>
    obtain ⟨entry, value, head⟩ := Option.bind_eq_some_iff.mp head
    obtain rfl := Option.some.inj head
    obtain ⟨entries, values, settles⟩ := ih
    refine ⟨entry :: entries, ?_, .cons ⟨depth, item, value, rfl⟩ settles⟩
    rw [List.mapM_cons, value, values]
    rfl

/-- A list is read item by item, each as the value that it is. -/
theorem exists_lists {field : Option Document} {settled : List Document}
    (read : Decoder.defaulted [] (Decoder.list entryDecoder) (maxDepth - 1) field = some settled) :
    ∃ entries, Lists field entries ∧ settled.Forall₂ SettlesTo entries := by
  cases field with
  | none =>
    obtain rfl := Option.some.inj read
    exact ⟨[], .none, .nil⟩
  | some document =>
    rw [Decoder.defaulted, show maxDepth - 1 = maxDepth - 2 + 1 from rfl] at read
    unfold Decoder.list at read
    split at read
    · next items same =>
      obtain rfl := Nat.succ.inj same
      obtain ⟨entries, values, settles⟩ := exists_values (mapM_eq_some_iff.mp read)
      exact ⟨entries, .array values, settles⟩
    · cases read

theorem exists_entries {text : String} {first second : List Document}
    (decoded : Json.decode? entriesDecoder text = some (first, second)) :
    ∃ nodes edges, HasEntries text nodes edges ∧ first.Forall₂ SettlesTo nodes ∧
      second.Forall₂ SettlesTo edges := by
  obtain ⟨document, parsed, read⟩ := Option.bind_eq_some_iff.mp decoded
  obtain ⟨fields, held, read⟩ := Option.bind_eq_some_iff.mp read
  dsimp only at read
  split at read
  · next nodeField edgeField =>
    obtain ⟨nodes, readNodes, read⟩ := Option.bind_eq_some_iff.mp read
    obtain ⟨edges, readEdges, read⟩ := Option.bind_eq_some_iff.mp read
    obtain ⟨rfl, rfl⟩ := Prod.mk.inj (Option.some.inj read)
    obtain ⟨nodes, listsNodes, settlesNodes⟩ := exists_lists readNodes
    obtain ⟨edges, listsEdges, settlesEdges⟩ := exists_lists readEdges
    exact ⟨nodes, edges, ⟨document, nodeField, edgeField, parsed, held, listsNodes, listsEdges⟩,
      settlesNodes, settlesEdges⟩
  · cases read

theorem Lists.exists_settled {field : Option Document} {entries : List Json}
    (lists : Lists field entries) :
    ∃ settled,
      Decoder.defaulted [] (Decoder.list entryDecoder) (maxDepth - 1) field = some settled := by
  cases lists with
  | none => exact ⟨[], rfl⟩
  | @array items _ each =>
    have values := mapM_isSome_iff.mp (Option.isSome_of_eq_some each)
    refine Option.isSome_iff_exists.mp (mapM_isSome_iff.mpr fun item listed => ?_)
    obtain ⟨value, written⟩ := Option.isSome_iff_exists.mp (values item listed)
    show (Document.toJson? (maxDepth - 2) item >>= fun _ => pure item.settle).isSome
    rw [written]
    rfl

/-- A text is that of a graph if it lists values, whichever these are. -/
theorem load?_isSome_iff {text : String} :
    (load? text).isSome ↔ ∃ nodes edges, HasEntries text nodes edges := by
  constructor
  · intro read
    obtain ⟨loaded, read⟩ := Option.isSome_iff_exists.mp read
    obtain ⟨⟨first, second⟩, decoded, _⟩ := Option.bind_eq_some_iff.mp read
    obtain ⟨nodes, edges, entries, _⟩ := exists_entries decoded
    exact ⟨nodes, edges, entries⟩
  · rintro ⟨nodes, edges, document, first, second, parsed, held, listsNodes, listsEdges⟩
    obtain ⟨settledNodes, readNodes⟩ := listsNodes.exists_settled
    obtain ⟨settledEdges, readEdges⟩ := listsEdges.exists_settled
    have decoded : Json.decode? entriesDecoder text = some (settledNodes, settledEdges) := by
      rw [Json.decode?, parsed, entriesDecoder, show maxDepth = maxDepth - 1 + 1 from rfl,
        Option.bind_eq_bind, Option.bind_some, Decoder.record, held, Option.bind_eq_bind,
        Option.bind_some]
      dsimp only
      rw [readNodes, readEdges]
      rfl
    rw [load?, decoded]
    rfl

end Entries

section Restore

namespace Loaded

/-- What was taken up or left out. -/
def count (loaded : Loaded) : Nat :=
  loaded.graph.nodes.length + loaded.graph.edges.length + loaded.quarantined

theorem addNode_some (loaded : Loaded) (node : GraphNode) :
    loaded.addNode (some node) =
      if loaded.graph.contains node.id then ⟨loaded.graph, loaded.quarantined + 1⟩
      else ⟨⟨loaded.graph.nodes ++ [node], loaded.graph.edges⟩, loaded.quarantined⟩ := by
  rw [addNode]
  split
  · rfl
  · next fresh => rw [Graph.addNode, if_neg fresh]

theorem addEdge_some (loaded : Loaded) (edge : GraphEdge) :
    loaded.addEdge (some edge) =
      if loaded.graph.joins edge then
        ⟨⟨loaded.graph.nodes, loaded.graph.edges ++ [edge]⟩, loaded.quarantined⟩
      else ⟨loaded.graph, loaded.quarantined + 1⟩ := by
  rw [addEdge]
  split
  · next joined => rw [Graph.addEdge, if_pos joined]
  · rfl

theorem count_addNode (loaded : Loaded) (node : Option GraphNode) :
    (loaded.addNode node).count = loaded.count + 1 := by
  cases node with
  | none => rfl
  | some node =>
    rw [addNode_some, count, count]
    split
    · rfl
    · simp only [List.length_append, List.length_singleton]
      omega

theorem count_addEdge (loaded : Loaded) (edge : Option GraphEdge) :
    (loaded.addEdge edge).count = loaded.count + 1 := by
  cases edge with
  | none => rfl
  | some edge =>
    rw [addEdge_some, count, count]
    split
    · simp only [List.length_append, List.length_singleton]
      omega
    · rfl

theorem count_foldl {α : Type} {step : Loaded → α → Loaded}
    (one : ∀ loaded x, (step loaded x).count = loaded.count + 1) (entries : List α)
    (loaded : Loaded) : (entries.foldl step loaded).count = loaded.count + entries.length := by
  induction entries generalizing loaded with
  | nil => rfl
  | cons entry entries ih =>
    rw [List.foldl_cons, ih, one, List.length_cons]
    omega

/-- A node is taken up if none that was taken up before has its id; those are what the loop that
strips repetitions has kept so far. -/
theorem foldl_addNode (entries : List (Option GraphNode)) (loaded : Loaded) :
    (entries.foldl addNode loaded).graph =
      ⟨List.eraseDupsBy.loop (fun first second => first.id == second.id) entries.reduceOption
        loaded.graph.nodes.reverse, loaded.graph.edges⟩ := by
  induction entries generalizing loaded with
  | nil =>
    rw [List.foldl_nil, List.reduceOption_nil, List.eraseDupsBy.loop, List.reverse_reverse]
  | cons entry entries ih =>
    rw [List.foldl_cons, ih]
    cases entry with
    | none => rw [List.reduceOption_cons_of_none]; rfl
    | some node =>
      have known : loaded.graph.nodes.reverse.any (fun old => node.id == old.id) =
          loaded.graph.contains node.id := by
        rw [List.any_reverse, contains]
        exact congrArg _ (funext fun _ => BEq.comm)
      rw [List.reduceOption_cons_of_some, List.eraseDupsBy.loop, known, addNode_some]
      cases loaded.graph.contains node.id with
      | true => rfl
      | false => simp

/-- Whether a relation joins two nodes does not depend on the relations that are there. -/
theorem foldl_addEdge (entries : List (Option GraphEdge)) (loaded : Loaded) :
    (entries.foldl addEdge loaded).graph =
      ⟨loaded.graph.nodes, loaded.graph.edges ++ entries.reduceOption.filter loaded.graph.joins⟩ := by
  induction entries generalizing loaded with
  | nil => simp
  | cons entry entries ih =>
    rw [List.foldl_cons, ih]
    cases entry with
    | none => rw [List.reduceOption_cons_of_none]; rfl
    | some edge =>
      rw [List.reduceOption_cons_of_some, List.filter_cons, addEdge_some]
      cases joined : loaded.graph.joins edge with
      | true =>
        show Graph.mk _
            (loaded.graph.edges ++ [edge] ++ entries.reduceOption.filter loaded.graph.joins) =
          ⟨_, loaded.graph.edges ++ edge :: entries.reduceOption.filter loaded.graph.joins⟩
        rw [List.append_assoc]
        rfl
      | false => rfl

theorem wellFormed_addNode {loaded : Loaded} (wellFormed : loaded.graph.WellFormed)
    (node : Option GraphNode) : (loaded.addNode node).graph.WellFormed := by
  cases node with
  | none => exact wellFormed
  | some node =>
    rw [Loaded.addNode]
    split
    · exact wellFormed
    · exact Graph.WellFormed.addNode wellFormed node

theorem wellFormed_addEdge {loaded : Loaded} (wellFormed : loaded.graph.WellFormed)
    (edge : Option GraphEdge) : (loaded.addEdge edge).graph.WellFormed := by
  cases edge with
  | none => exact wellFormed
  | some edge =>
    rw [Loaded.addEdge]
    split
    · exact Graph.WellFormed.addEdge wellFormed edge
    · exact wellFormed

theorem foldl_wellFormed {α : Type} {step : Loaded → α → Loaded}
    (one : ∀ {loaded : Loaded}, loaded.graph.WellFormed → ∀ x, (step loaded x).graph.WellFormed)
    (entries : List α) {loaded : Loaded} (wellFormed : loaded.graph.WellFormed) :
    (entries.foldl step loaded).graph.WellFormed := by
  induction entries generalizing loaded with
  | nil => exact wellFormed
  | cons entry entries ih => exact ih (one wellFormed entry)

end Loaded

variable (nodes : List (Option GraphNode)) (edges : List (Option GraphEdge))

theorem count_restore : (restore nodes edges).count = nodes.length + edges.length := by
  rw [restore, Loaded.count_foldl Loaded.count_addEdge, Loaded.count_foldl Loaded.count_addNode]
  simp [Loaded.count, empty]

theorem nodes_restore :
    (restore nodes edges).graph.nodes =
      nodes.reduceOption.eraseDupsBy fun first second => first.id == second.id := by
  rw [restore, Loaded.foldl_addEdge, Loaded.foldl_addNode]
  rfl

theorem edges_restore :
    (restore nodes edges).graph.edges =
      edges.reduceOption.filter (restore nodes edges).graph.joins := by
  rw [restore, Loaded.foldl_addEdge, Loaded.foldl_addNode]
  rfl

theorem wellFormed_restore : (restore nodes edges).graph.WellFormed :=
  Loaded.foldl_wellFormed Loaded.wellFormed_addEdge edges
    (Loaded.foldl_wellFormed Loaded.wellFormed_addNode nodes .empty)

end Restore

/-- Whatever a text lists for nodes and for relations, each entry is taken up or counted as left out.
The nodes that are taken up are those that the well-formed entries tell of, the first of each id, and
so are the relations if both their ends are among these nodes. The graph is saved and loaded as it
is. -/
theorem load?_accounts {text : String} {loaded : Loaded} (read : load? text = some loaded) :
    ∃ nodes edges told related, HasEntries text nodes edges ∧
      Selects TellsNode nodes told ∧ Selects TellsEdge edges related ∧
      loaded.graph.nodes = told.eraseDupsBy (fun first second => first.id == second.id) ∧
      loaded.graph.edges = related.filter loaded.graph.joins ∧
      loaded.graph.nodes.length + loaded.graph.edges.length + loaded.quarantined =
        nodes.length + edges.length ∧
      load? loaded.graph.save = some ⟨loaded.graph, 0⟩ := by
  obtain ⟨⟨first, second⟩, decoded, restored⟩ := Option.bind_eq_some_iff.mp read
  obtain rfl := Option.some.inj restored
  obtain ⟨nodes, edges, entries, settlesNodes, settlesEdges⟩ := exists_entries decoded
  have told : Selects TellsNode nodes (first.map (nodeDecoder maxDepth)).reduceOption :=
    selects_reduceOption (fun _ _ settles => nodeDecoder_eq_some_iff settles 125) settlesNodes
  have related : Selects TellsEdge edges (second.map (edgeDecoder maxDepth)).reduceOption :=
    selects_reduceOption (fun _ _ settles => edgeDecoder_eq_some_iff settles 125) settlesEdges
  refine ⟨nodes, edges, _, _, entries, told, related, nodes_restore _ _, edges_restore _ _, ?_,
    (wellFormed_restore _ _).load?_save⟩
  have counted :=
    count_restore (first.map (nodeDecoder maxDepth)) (second.map (edgeDecoder maxDepth))
  rwa [List.length_map, List.length_map, settlesNodes.length_eq, settlesEdges.length_eq] at counted

/-- Of four entries for nodes one repeats an id, one has a type that there is not and one is a number;
of three relations one lacks an end and one has a type that there is not. -/
theorem load?_accounts_malformed :
    let text := "\x7b\"nodes\":[\x7b\"id\":\"f\",\"label\":\"f\",\"type\":\"file\"\x7d," ++
      "[\"f\",\"again\",\"file\"],[\"x\",\"x\",\"module\"],42]," ++
      "\"edges\":[[\"f\",\"f\",\x7b\"imports\":null\x7d],[\"f\",\"x\",\"imports\"],[\"f\",\"f\",\"extends\"]]\x7d"
    let graph : Graph := ⟨[⟨"f", "f", .file, none, none⟩], [⟨"f", "f", .imports⟩]⟩
    load? text = some ⟨graph, 5⟩ ∧ load? graph.save = some ⟨graph, 0⟩ ∧
      ∃ nodes edges, HasEntries text nodes edges ∧ nodes.length + edges.length = 7 := by
  intro text graph
  have read : load? text = some ⟨graph, 5⟩ := by decide +kernel
  obtain ⟨nodes, edges, _, _, entries, _, _, _, _, counted, saved⟩ := load?_accounts read
  exact ⟨read, saved, nodes, edges, entries, counted.symm⟩

end Graph

end CodeAtlas
