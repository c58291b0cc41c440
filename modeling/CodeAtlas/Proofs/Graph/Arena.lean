import CodeAtlas.Graph.Snapshot
import CodeAtlas.Index.Places
import CodeAtlas.Proofs.Graph.RoundTrip
import CodeAtlas.Proofs.List.Made

namespace CodeAtlas

open Std (ExtHashMap)

/-- A relation by the places of its ends. -/
structure Link where
  source : Nat
  target : Nat
  type : EdgeType

structure Arena where
  nodes : List GraphNode
  links : List Link
  places : ExtHashMap String Nat

/-- Among nodes with different ids. -/
theorem GraphNode.find?_eq_some_iff {nodes : List GraphNode} {id : String} {node : GraphNode}
    (distinct : (nodes.map (·.id)).Nodup) :
    nodes.find? (·.id == id) = some node ↔ node ∈ nodes ∧ node.id = id := by
  constructor
  · intro found
    exact ⟨List.mem_of_find?_eq_some found, by simpa using List.find?_some found⟩
  · rintro ⟨member, rfl⟩
    cases found : nodes.find? (·.id == node.id) with
    | none =>
      have other := List.find?_eq_none.mp found node member
      rw [beq_self_eq_true] at other
      exact absurd rfl other
    | some other =>
      have same : other.id = node.id := by simpa using List.find?_some found
      rw [List.inj_on_of_nodup_map distinct (List.mem_of_find?_eq_some found) member same]

namespace Arena

def empty : Arena := ⟨[], [], ∅⟩

def contains (arena : Arena) (id : String) : Bool := arena.places[id]?.isSome

def node? (arena : Arena) (id : String) : Option GraphNode := do
  arena.nodes[← arena.places[id]?]?

/-- The relation that a link stands for. -/
def edgeOf? (nodes : List GraphNode) (link : Link) : Option GraphEdge := do
  return ⟨(← nodes[link.source]?).id, (← nodes[link.target]?).id, link.type⟩

def edges (arena : Arena) : List GraphEdge := arena.links.filterMap (edgeOf? arena.nodes)

/-- Yields the place of the node with the id, which is the one that was there before if there was one. -/
def addNode (arena : Arena) (node : GraphNode) : Nat × Arena :=
  match arena.places[node.id]? with
  | some place => (place, arena)
  | none =>
    (arena.nodes.length,
      { arena with
        nodes := arena.nodes ++ [node]
        places := arena.places.insert node.id arena.nodes.length })

/-- Yields whether both ends are there; if not, nothing is added. -/
def addEdge (arena : Arena) (edge : GraphEdge) : Bool × Arena :=
  match arena.places[edge.source]?, arena.places[edge.target]? with
  | some source, some target =>
    (true, { arena with links := arena.links ++ [⟨source, target, edge.type⟩] })
  | _, _ => (false, arena)

def hasEdge (arena : Arena) (edge : GraphEdge) : Bool :=
  match arena.places[edge.source]?, arena.places[edge.target]? with
  | some source, some target => arena.links.any fun link =>
      link.source == source && link.target == target && link.type == edge.type
  | _, _ => false

def after (arena : Arena) : Graph.Step → Arena
  | .addNode node => (arena.addNode node).2
  | .addEdge edge => (arena.addEdge edge).2

def afterAll (arena : Arena) (steps : List Graph.Step) : Arena := steps.foldl after arena

/-- Takes up a node of a text, or counts it. -/
def takeNode (loaded : Arena × Nat) : Option GraphNode → Arena × Nat
  | none => (loaded.1, loaded.2 + 1)
  | some node =>
    if loaded.1.contains node.id then (loaded.1, loaded.2 + 1)
    else ((loaded.1.addNode node).2, loaded.2)

/-- Takes up a relation of a text, or counts it. -/
def takeEdge (loaded : Arena × Nat) : Option GraphEdge → Arena × Nat
  | none => (loaded.1, loaded.2 + 1)
  | some edge =>
    ((loaded.1.addEdge edge).2, if (loaded.1.addEdge edge).1 then loaded.2 else loaded.2 + 1)

def restore (nodes : List (Option GraphNode)) (edges : List (Option GraphEdge)) : Arena × Nat :=
  edges.foldl takeEdge (nodes.foldl takeNode (empty, 0))

/-- The graph of a text, and how many of its entries were left out. -/
def load? (text : String) : Option (Arena × Nat) := do
  let (nodes, edges) ← Json.decode? Graph.entriesDecoder text
  return restore (nodes.map (Graph.nodeDecoder Json.maxDepth))
    (edges.map (Graph.edgeDecoder Json.maxDepth))

theorem edgeOf?_eq_some_iff {nodes : List GraphNode} {link : Link} {edge : GraphEdge} :
    edgeOf? nodes link = some edge ↔
      ∃ source target, nodes[link.source]? = some source ∧ nodes[link.target]? = some target ∧
        edge = ⟨source.id, target.id, link.type⟩ := by
  simp only [edgeOf?, Option.bind_eq_bind, Option.bind_eq_some_iff, Option.pure_def,
    Option.some.injEq]
  constructor
  · rintro ⟨source, atSource, target, atTarget, rfl⟩
    exact ⟨source, target, atSource, atTarget, rfl⟩
  · rintro ⟨source, target, atSource, atTarget, rfl⟩
    exact ⟨source, atSource, target, atTarget, rfl⟩

/-- A link stands for the same relation when nodes are added. -/
theorem edgeOf?_append {nodes : List GraphNode} {link : Link} {edge : GraphEdge}
    (stands : edgeOf? nodes link = some edge) (more : List GraphNode) :
    edgeOf? (nodes ++ more) link = some edge := by
  obtain ⟨source, target, atSource, atTarget, same⟩ := edgeOf?_eq_some_iff.mp stands
  have inSource : link.source < nodes.length := (List.getElem?_eq_some_iff.mp atSource).1
  have inTarget : link.target < nodes.length := (List.getElem?_eq_some_iff.mp atTarget).1
  refine edgeOf?_eq_some_iff.mpr ⟨source, target, ?_, ?_, same⟩
  · rw [List.getElem?_append_left inSource, atSource]
  · rw [List.getElem?_append_left inTarget, atTarget]

theorem filterMap_edgeOf? {nodes : List GraphNode} {links : List Link} {edges : List GraphEdge}
    (stand : links.Forall₂ (fun link edge => edgeOf? nodes link = some edge) edges) :
    links.filterMap (edgeOf? nodes) = edges := by
  induction stand with
  | nil => rfl
  | cons found _ ih => rw [List.filterMap_cons, found, ih]

/-- The arena keeps the graph. -/
structure Keeps (arena : Arena) (graph : Graph) : Prop where
  nodes : arena.nodes = graph.nodes
  places : Locates arena.places (graph.nodes.map (·.id))
  links : arena.links.Forall₂ (fun link edge => edgeOf? graph.nodes link = some edge) graph.edges

namespace Keeps

variable {arena : Arena} {graph : Graph}

theorem empty : Keeps empty .empty := ⟨rfl, .nil, .nil⟩

section Questions

variable (keeps : arena.Keeps graph)

include keeps

/-- The node at the place of an id has the id. -/
theorem exists_of_place {id : String} {place : Nat} (known : arena.places[id]? = some place) :
    ∃ node, graph.nodes[place]? = some node ∧ node.id = id := by
  have found := (keeps.places id place).mp known
  rw [List.getElem?_map] at found
  exact Option.map_eq_some_iff.mp found

theorem place_of_node {node : GraphNode} {place : Nat} (stands : graph.nodes[place]? = some node) :
    arena.places[node.id]? = some place :=
  (keeps.places node.id place).mpr (by rw [List.getElem?_map, stands]; rfl)

theorem contains_eq (id : String) : arena.contains id = graph.contains id := by
  rw [Bool.eq_iff_iff, Graph.contains_eq_true_iff, contains, Option.isSome_iff_exists]
  constructor
  · rintro ⟨place, known⟩
    obtain ⟨node, stands, same⟩ := keeps.exists_of_place known
    exact ⟨node, List.mem_of_getElem? stands, same⟩
  · rintro ⟨node, member, rfl⟩
    obtain ⟨place, stands⟩ := List.mem_iff_getElem?.mp member
    exact ⟨place, keeps.place_of_node stands⟩

theorem distinct : (graph.nodes.map (·.id)).Nodup := keeps.places.nodup

theorem edges_eq : arena.edges = graph.edges := by
  rw [edges, keeps.nodes]
  exact filterMap_edgeOf? keeps.links

theorem node?_eq (id : String) : arena.node? id = graph.node? id := by
  unfold node? Graph.node?
  cases known : arena.places[id]? with
  | none =>
    have outside := keeps.places.eq_none_iff.mp known
    refine (List.find?_eq_none.mpr fun node member => ?_).symm
    have other : node.id ≠ id := fun same => outside (List.mem_map.mpr ⟨node, member, same⟩)
    simpa using other
  | some place =>
    obtain ⟨node, stands, rfl⟩ := keeps.exists_of_place known
    have found : graph.nodes.find? (·.id == node.id) = some node :=
      (GraphNode.find?_eq_some_iff keeps.distinct).mpr ⟨List.mem_of_getElem? stands, rfl⟩
    rw [found]
    refine (congrArg (·[place]?) keeps.nodes).trans stands

theorem hasEdge_iff (edge : GraphEdge) : arena.hasEdge edge = true ↔ edge ∈ graph.edges := by
  constructor
  · intro has
    unfold hasEdge at has
    split at has
    · next source target atSource atTarget =>
      obtain ⟨link, member, same⟩ := List.any_eq_true.mp has
      rw [Bool.and_eq_true, Bool.and_eq_true, beq_iff_eq, beq_iff_eq, beq_iff_eq] at same
      obtain ⟨⟨rfl, rfl⟩, type⟩ := same
      have flipped : graph.edges.Forall₂ (fun edge link => edgeOf? graph.nodes link = some edge)
          arena.links := .flip keeps.links
      obtain ⟨found, listed, stands⟩ := exists_of_forall₂ flipped member
      obtain ⟨first, second, atFirst, atSecond, rfl⟩ := edgeOf?_eq_some_iff.mp stands
      obtain ⟨_, stands, ofSource⟩ := keeps.exists_of_place atSource
      obtain rfl := Option.some.inj (atFirst.symm.trans stands)
      obtain ⟨_, stands, ofTarget⟩ := keeps.exists_of_place atTarget
      obtain rfl := Option.some.inj (atSecond.symm.trans stands)
      rw [ofSource, ofTarget, type] at listed
      exact listed
    · cases has
  · intro member
    obtain ⟨link, listed, stands⟩ := exists_of_forall₂ keeps.links member
    obtain ⟨source, target, atSource, atTarget, rfl⟩ := edgeOf?_eq_some_iff.mp stands
    have first := keeps.place_of_node atSource
    have second := keeps.place_of_node atTarget
    unfold hasEdge
    simp only [first, second]
    exact List.any_eq_true.mpr ⟨link, listed, by simp⟩

end Questions

theorem addNode_eq (keeps : arena.Keeps graph) (node : GraphNode) :
    (arena.addNode node).2.Keeps (graph.addNode node) := by
  have same := keeps.contains_eq node.id
  unfold Arena.addNode Graph.addNode
  rw [← same, contains]
  cases found : arena.places[node.id]? with
  | some place => exact keeps
  | none =>
    refine ⟨congrArg (· ++ [node]) keeps.nodes, ?_, ?_⟩
    · have located := keeps.places.snoc (keeps.places.eq_none_iff.mp found)
      rw [List.length_map] at located
      change Locates (arena.places.insert node.id arena.nodes.length)
        ((graph.nodes ++ [node]).map (·.id))
      rw [keeps.nodes, List.map_append]
      exact located
    · exact keeps.links.imp fun link edge stands => edgeOf?_append stands [node]

/-- The place that is yielded is the one where the node with the id stands. -/
theorem addNode_place (keeps : arena.Keeps graph) (node : GraphNode) :
    ∃ first, (graph.addNode node).nodes[(arena.addNode node).1]? = some first ∧ first.id = node.id := by
  have same := keeps.contains_eq node.id
  unfold Arena.addNode Graph.addNode
  rw [← same, contains]
  cases found : arena.places[node.id]? with
  | some place => exact keeps.exists_of_place found
  | none =>
    refine ⟨node, ?_, rfl⟩
    change (graph.nodes ++ [node])[arena.nodes.length]? = some node
    rw [keeps.nodes]
    exact List.getElem?_concat_length

theorem joins_eq (keeps : arena.Keeps graph) (edge : GraphEdge) :
    (arena.addEdge edge).1 = graph.joins edge := by
  have source := keeps.contains_eq edge.source
  have target := keeps.contains_eq edge.target
  unfold contains at source target
  unfold Arena.addEdge Graph.joins
  rw [← source, ← target]
  cases arena.places[edge.source]? with
  | none => rfl
  | some source => cases arena.places[edge.target]? <;> rfl

theorem joins_of_mem (keeps : arena.Keeps graph) {edge : GraphEdge} (member : edge ∈ graph.edges) :
    graph.joins edge = true := by
  obtain ⟨link, _, stands⟩ := exists_of_forall₂ keeps.links member
  obtain ⟨source, target, atSource, atTarget, rfl⟩ := edgeOf?_eq_some_iff.mp stands
  rw [Graph.joins, Bool.and_eq_true, Graph.contains_eq_true_iff, Graph.contains_eq_true_iff]
  exact ⟨⟨source, List.mem_of_getElem? atSource, rfl⟩, ⟨target, List.mem_of_getElem? atTarget, rfl⟩⟩

theorem addNode_of_known {node : GraphNode} (known : arena.contains node.id = true) :
    (arena.addNode node).2 = arena := by
  obtain ⟨place, found⟩ := Option.isSome_iff_exists.mp known
  unfold Arena.addNode
  rw [found]

theorem addEdge_of_unknown {edge : GraphEdge} (unknown : (arena.addEdge edge).1 = false) :
    (arena.addEdge edge).2 = arena := by
  unfold Arena.addEdge at unknown ⊢
  split
  · next known known' =>
    rw [known, known'] at unknown
    cases unknown
  · rfl

theorem addEdge_eq (keeps : arena.Keeps graph) (edge : GraphEdge) :
    (arena.addEdge edge).2.Keeps (graph.addEdge edge) := by
  have joins := keeps.joins_eq edge
  unfold Graph.addEdge
  rw [← joins]
  cases added : (arena.addEdge edge).1 with
  | false =>
    rw [addEdge_of_unknown added]
    exact keeps
  | true =>
    unfold Arena.addEdge at added ⊢
    split at added
    · next source target atSource atTarget =>
      obtain ⟨first, atFirst, ofSource⟩ := keeps.exists_of_place atSource
      obtain ⟨second, atSecond, ofTarget⟩ := keeps.exists_of_place atTarget
      refine ⟨keeps.nodes, keeps.places, List.rel_append keeps.links (.cons ?_ .nil)⟩
      refine edgeOf?_eq_some_iff.mpr ⟨first, second, atFirst, atSecond, ?_⟩
      rw [ofSource, ofTarget]
    · cases added

theorem after (keeps : arena.Keeps graph) (step : Graph.Step) :
    (arena.after step).Keeps (graph.after step) := by
  cases step with
  | addNode node => exact keeps.addNode_eq node
  | addEdge edge => exact keeps.addEdge_eq edge

theorem afterAll (keeps : arena.Keeps graph) (steps : List Graph.Step) :
    (arena.afterAll steps).Keeps (graph.afterAll steps) := by
  induction steps generalizing arena graph with
  | nil => exact keeps
  | cons step steps ih => exact ih (keeps.after step)

end Keeps

section Load

/-- The arena keeps the graph that is loaded, and as much was left out. -/
structure Takes (taken : Arena × Nat) (loaded : Graph.Loaded) : Prop where
  keeps : taken.1.Keeps loaded.graph
  counted : taken.2 = loaded.quarantined

variable {taken : Arena × Nat} {loaded : Graph.Loaded}

theorem Takes.leaveOut (takes : Takes taken loaded) :
    Takes (taken.1, taken.2 + 1) { loaded with quarantined := loaded.quarantined + 1 } :=
  ⟨takes.keeps, congrArg (· + 1) takes.counted⟩

theorem Takes.takeNode (takes : Takes taken loaded) (node : Option GraphNode) :
    Takes (takeNode taken node) (loaded.addNode node) := by
  cases node with
  | none => exact takes.leaveOut
  | some node =>
    have same := takes.keeps.contains_eq node.id
    unfold Arena.takeNode Graph.Loaded.addNode
    dsimp only
    rw [same]
    split
    · exact takes.leaveOut
    · exact ⟨takes.keeps.addNode_eq node, takes.counted⟩

theorem Takes.takeEdge (takes : Takes taken loaded) (edge : Option GraphEdge) :
    Takes (takeEdge taken edge) (loaded.addEdge edge) := by
  cases edge with
  | none => exact takes.leaveOut
  | some edge =>
    have same := takes.keeps.joins_eq edge
    have added := takes.keeps.addEdge_eq edge
    unfold Arena.takeEdge Graph.Loaded.addEdge
    dsimp only
    rw [same]
    split
    · exact ⟨added, takes.counted⟩
    · next unknown =>
      rw [Keeps.addEdge_of_unknown (same.trans (Bool.eq_false_iff.mpr unknown))]
      exact takes.leaveOut

theorem takes_restore (nodes : List (Option GraphNode)) (edges : List (Option GraphEdge)) :
    Takes (restore nodes edges) (Graph.restore nodes edges) := by
  have started : Takes (empty, 0) ⟨.empty, 0⟩ := ⟨.empty, rfl⟩
  have named : Takes (nodes.foldl Arena.takeNode (empty, 0))
      (nodes.foldl Graph.Loaded.addNode ⟨.empty, 0⟩) :=
    List.foldl_rel started fun node _ _ _ takes => takes.takeNode node
  exact List.foldl_rel named fun edge _ _ _ takes => takes.takeEdge edge

/-- A text is read as an arena if it is read as a graph, and the arena keeps the graph. -/
theorem takes_load? {text : String} (read : Graph.load? text = some loaded) :
    ∃ taken, load? text = some taken ∧ Takes taken loaded := by
  obtain ⟨⟨nodes, edges⟩, decoded, ⟨⟩⟩ := Option.bind_eq_some_iff.mp read
  refine ⟨_, ?_, takes_restore _ _⟩
  unfold load?
  rw [decoded]
  rfl

end Load

/-- How the life of a graph begins. -/
inductive Origin where
  | empty
  | loaded (text : String)

namespace Origin

def graph? : Origin → Option Graph
  | empty => some .empty
  | loaded text => (Graph.load? text).map (·.graph)

def arena? : Origin → Option Arena
  | empty => some .empty
  | loaded text => (load? text).map (·.1)

theorem exists_arena {origin : Origin} {graph : Graph} (begins : origin.graph? = some graph) :
    ∃ arena, origin.arena? = some arena ∧ arena.Keeps graph := by
  cases origin with
  | empty =>
    obtain rfl := Option.some.inj begins
    exact ⟨_, rfl, .empty⟩
  | loaded text =>
    obtain ⟨loaded, read, rfl⟩ := Option.map_eq_some_iff.mp begins
    obtain ⟨taken, found, takes⟩ := takes_load? read
    exact ⟨taken.1, by rw [arena?, found]; rfl, takes.keeps⟩

end Origin

/-- All that is asked of the arena is answered as it is of the graph. -/
structure Answers (arena : Arena) (graph : Graph) : Prop where
  nodes : arena.nodes = graph.nodes
  edges : arena.edges = graph.edges
  contains : ∀ id, arena.contains id = graph.contains id
  node? : ∀ id, arena.node? id = graph.node? id
  hasEdge : ∀ edge, arena.hasEdge edge = graph.hasEdge edge
  addNode : ∀ node, (arena.addNode node).1 = (graph.addNode node).indexOf node.id
  addEdge : ∀ edge, (arena.addEdge edge).1 = graph.joins edge

section Answers

variable {arena : Arena} {graph : Graph}

theorem Keeps.indexOf_eq (keeps : arena.Keeps graph) {node : GraphNode} {place : Nat}
    (stands : graph.nodes[place]? = some node) : graph.indexOf node.id = place := by
  obtain ⟨inside, here⟩ := List.getElem?_eq_some_iff.mp stands
  refine (List.findIdx_eq inside).mpr ⟨by simp [here], fun other before => ?_⟩
  have apart : graph.nodes[other].id ≠ node.id := by
    intro same
    have first := keeps.place_of_node (List.getElem?_eq_getElem (Nat.lt_trans before inside))
    rw [same, keeps.place_of_node stands] at first
    have unique := Option.some.inj first
    omega
  simpa using apart

theorem Keeps.answers (keeps : arena.Keeps graph) : arena.Answers graph := by
  refine ⟨keeps.nodes, keeps.edges_eq, keeps.contains_eq, keeps.node?_eq, fun edge => ?_,
    fun node => ?_, keeps.joins_eq⟩
  · rw [Bool.eq_iff_iff, keeps.hasEdge_iff, Graph.hasEdge, List.contains_iff_mem]
  · obtain ⟨first, stands, same⟩ := keeps.addNode_place node
    rw [← same]
    exact ((keeps.addNode_eq node).indexOf_eq stands).symm

end Answers

/-- However a graph begins, empty or read from a text, and whatever is added to it: the arena that keeps
it answers as the graph itself; no two nodes share an id; looking an id up finds the node that has it;
relations join nodes; a relation is refused if an end of it is missing, and a node if its id is taken,
and nothing changes then; and the relations that are found are those that are there. -/
theorem arena_answers {origin : Origin} {first : Graph} (begins : origin.graph? = some first)
    (steps : List Graph.Step) :
    ∃ start, origin.arena? = some start ∧
      let arena := start.afterAll steps
      let ids := arena.nodes.map (·.id)
      arena.Answers (first.afterAll steps) ∧
      ids.Nodup ∧
      (∀ id node, arena.node? id = some node ↔ node ∈ arena.nodes ∧ node.id = id) ∧
      (∀ id, arena.contains id = true ↔ id ∈ ids) ∧
      (∀ edge ∈ arena.edges, edge.source ∈ ids ∧ edge.target ∈ ids) ∧
      (∀ edge, ((arena.addEdge edge).1 = false ↔ edge.source ∉ ids ∨ edge.target ∉ ids) ∧
        ((arena.addEdge edge).1 = false → (arena.addEdge edge).2 = arena)) ∧
      (∀ node, node.id ∈ ids → (arena.addNode node).2 = arena ∧
        ∃ taken, arena.nodes[(arena.addNode node).1]? = some taken ∧ taken.id = node.id) ∧
      ∀ edge, arena.hasEdge edge = true ↔ edge ∈ arena.edges := by
  obtain ⟨start, started, keeps⟩ := Origin.exists_arena begins
  refine ⟨start, started, ?_⟩
  intro arena ids
  have kept : arena.Keeps (first.afterAll steps) := keeps.afterAll steps
  have distinct : ids.Nodup := by
    have distinct := kept.distinct
    rwa [← kept.nodes] at distinct
  have contains (id : String) : arena.contains id = true ↔ id ∈ ids := by
    rw [kept.contains_eq, Graph.contains_eq_true_iff, ← kept.nodes]
    exact List.mem_map.symm
  have joins (edge : GraphEdge) :
      (arena.addEdge edge).1 = true ↔ edge.source ∈ ids ∧ edge.target ∈ ids := by
    rw [kept.joins_eq, Graph.joins, Bool.and_eq_true, ← kept.contains_eq, ← kept.contains_eq,
      contains, contains]
  refine ⟨kept.answers, distinct, ?_, contains, ?_, ?_, ?_, ?_⟩
  · intro id node
    rw [kept.node?_eq, Graph.node?, ← kept.nodes]
    exact GraphNode.find?_eq_some_iff distinct
  · intro edge member
    rw [kept.edges_eq] at member
    exact (joins edge).mp ((kept.joins_eq edge).trans (kept.joins_of_mem member))
  · intro edge
    refine ⟨?_, Keeps.addEdge_of_unknown⟩
    rw [← Bool.not_eq_true, joins, not_and_or]
  · intro node taken
    have same := Keeps.addNode_of_known ((contains node.id).mpr taken)
    obtain ⟨holder, stands, named⟩ := kept.addNode_place node
    rw [← (kept.addNode_eq node).nodes, same] at stands
    exact ⟨same, holder, stands, named⟩
  · intro edge
    rw [kept.hasEdge_iff, kept.edges_eq]

/-- A graph is read from a text. Then a file is named once more, with another label; a relation is asked
for a second time, and one with an end that is not there. -/
theorem arena_answers_loaded :
    let read : Graph := ⟨[.ofFile "a.ts", .ofFile "b.ts"], [⟨"file:a.ts", "file:b.ts", .imports⟩]⟩
    let renamed : GraphNode := ⟨"file:b.ts", "other", .file, none, none⟩
    let steps : List Graph.Step := [.addNode renamed,
      .addEdge ⟨"file:a.ts", "file:b.ts", .imports⟩, .addEdge ⟨"file:a.ts", "file:c.ts", .imports⟩]
    (Origin.loaded read.save).graph? = some read ∧
      ∃ start, (Origin.loaded read.save).arena? = some start ∧
        let arena := start.afterAll steps
        arena.nodes = read.nodes ∧
        arena.edges = [⟨"file:a.ts", "file:b.ts", .imports⟩, ⟨"file:a.ts", "file:b.ts", .imports⟩] ∧
        (arena.addNode renamed).1 = 1 ∧ arena.node? "file:b.ts" = some (.ofFile "b.ts") ∧
        arena.hasEdge ⟨"file:a.ts", "file:b.ts", .calls⟩ = false := by
  intro read renamed steps
  have begins : (Origin.loaded read.save).graph? = some read := by
    have wellFormed : read.WellFormed := ⟨by decide, by decide⟩
    rw [Origin.graph?, wellFormed.load?_save]
    rfl
  obtain ⟨start, started, answers, _⟩ := arena_answers begins steps
  refine ⟨begins, start, started, answers.nodes.trans ?_, answers.edges.trans ?_,
    (answers.addNode _).trans ?_, (answers.node? _).trans ?_, (answers.hasEdge _).trans ?_⟩
  all_goals decide

end Arena

end CodeAtlas
