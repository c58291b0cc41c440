import CodeAtlas.Proofs.Graph.Arena
import CodeAtlas.Proofs.Graph.Connectivity

namespace CodeAtlas

/-- Along a relation, or against it. -/
inductive Direction where
  | outgoing
  | incoming
  deriving DecidableEq

/-- The end of a link to stand on. -/
def Link.near (link : Link) : Direction → Nat
  | .outgoing => link.source
  | .incoming => link.target

/-- The end of a link that it leads to. -/
def Link.far (link : Link) : Direction → Nat
  | .outgoing => link.target
  | .incoming => link.source

def GraphEdge.near (edge : GraphEdge) : Direction → String
  | .outgoing => edge.source
  | .incoming => edge.target

def GraphEdge.far (edge : GraphEdge) : Direction → String
  | .outgoing => edge.target
  | .incoming => edge.source

/-- A relation from one end to the other in a direction. -/
def Direction.join (direction : Direction) (near far : String) (type : EdgeType) : GraphEdge :=
  match direction with
  | .outgoing => ⟨near, far, type⟩
  | .incoming => ⟨far, near, type⟩

/-- What some relations lead to from a node, as often as they do and in their order. -/
def GraphEdge.scan (edges : List GraphEdge) (direction : Direction) (type : EdgeType) (id : String) :
    List String :=
  (edges.filter fun edge => edge.near direction == id && edge.type == type).map (·.far direction)

theorem GraphEdge.mem_scan {edges : List GraphEdge} {direction : Direction} {type : EdgeType}
    {id other : String} :
    other ∈ GraphEdge.scan edges direction type id ↔ direction.join id other type ∈ edges := by
  rw [scan, List.mem_map]
  constructor
  · rintro ⟨edge, listed, rfl⟩
    obtain ⟨member, here⟩ := List.mem_filter.mp listed
    rw [Bool.and_eq_true, beq_iff_eq, beq_iff_eq] at here
    obtain ⟨rfl, rfl⟩ := here
    cases direction <;> exact member
  · intro member
    refine ⟨_, List.mem_filter.mpr ⟨member, ?_⟩, ?_⟩ <;> cases direction <;>
      simp [Direction.join, near, far]

/-- The items, each once, in the order in which they come first. -/
structure InOrderOfFirst (items kept : List String) : Prop where
  distinct : kept.Nodup
  members : ∀ item, item ∈ kept ↔ item ∈ items
  order : kept.Pairwise fun first second => items.idxOf first < items.idxOf second

/-- Yields the links at a place in a direction with their numbers: all of them, in whichever order. -/
structure Incidence where
  linksAt : List Link → Direction → Nat → List (Link × Nat)
  all : ∀ links direction place, (linksAt links direction place).Perm
    (links.zipIdx.filter fun entry => entry.1.near direction == place)

/-- The link that was added last comes first. -/
def Incidence.lastFirst : Incidence where
  linksAt links direction place :=
    (links.zipIdx.filter fun entry => entry.1.near direction == place).reverse
  all _ _ _ := List.reverse_perm _

namespace Arena

variable (arena : Arena) (incidence : Incidence)

/-- The places to which the links of a type lead from a place. -/
def neighborPlaces (direction : Direction) (type : EdgeType) (place : Nat) : List Nat :=
  let links := (incidence.linksAt arena.links direction place).filter fun entry => entry.1.type == type
  let ends := links.map fun entry => (entry.2, entry.1.far direction)
  Graph.distinct ((ends.mergeSort fun first second => first.1 ≤ second.1).map (·.2))

/-- The neighbours of a node; none of a node that is not there. Fails if no node stands where a link
leads to. -/
def neighbors? (direction : Direction) (type : EdgeType) (id : String) : Option (List GraphNode) :=
  match arena.places[id]? with
  | none => some []
  | some place => (arena.neighborPlaces incidence direction type place).mapM (arena.nodes[·]?)

def callersOf? (id : String) : Option (List GraphNode) := arena.neighbors? incidence .incoming .calls id

def calleesOf? (id : String) : Option (List GraphNode) := arena.neighbors? incidence .outgoing .calls id

def importsOf? (id : String) : Option (List GraphNode) := arena.neighbors? incidence .outgoing .imports id

def importersOf? (id : String) : Option (List GraphNode) :=
  arena.neighbors? incidence .incoming .imports id

def symbolsIn? (id : String) : Option (List GraphNode) := arena.neighbors? incidence .outgoing .contains id

end Arena

namespace Graph

theorem inOrderOfFirst_distinct (items : List String) : InOrderOfFirst items (distinct items) := by
  refine ⟨nodup_distinct items, fun _ => mem_distinct, ?_⟩
  induction items using List.reverseRecOn with
  | nil => exact .nil
  | append_singleton items last ih =>
    have before : (distinct items).Pairwise fun first second =>
        (items ++ [last]).idxOf first < (items ++ [last]).idxOf second := by
      refine ih.imp_of_mem fun inFirst inSecond less => ?_
      rwa [List.idxOf_append_of_mem (mem_distinct.mp inFirst),
        List.idxOf_append_of_mem (mem_distinct.mp inSecond)]
    rw [distinct_append_singleton]
    split
    · exact before
    · next new =>
      have absent : last ∉ items := fun member =>
        new (List.contains_iff_mem.mpr (mem_distinct.mpr member))
      refine List.pairwise_append.mpr ⟨before, List.pairwise_singleton _ _, ?_⟩
      intro first inFirst second inSecond
      obtain rfl := List.mem_singleton.mp inSecond
      rw [List.idxOf_append_of_mem (mem_distinct.mp inFirst), List.idxOf_append_of_notMem absent]
      exact Nat.lt_add_right _ (List.idxOf_lt_length_of_mem (mem_distinct.mp inFirst))

/-- What is related one to one stays so when repetitions are left out. -/
theorem rel_distinct {α β : Type} [BEq α] [LawfulBEq α] [BEq β] [LawfulBEq β] {related : α → β → Prop}
    (unique : Relator.BiUnique related) {items : List α} {others : List β}
    (all : items.Forall₂ related others) : (distinct items).Forall₂ related (distinct others) := by
  refine List.rel_foldl (P := List.Forall₂ related) ?_ .nil all
  intro kept kept' sofar item item' same
  have again : kept.contains item = kept'.contains item' := by
    rw [Bool.eq_iff_iff, List.contains_iff_mem, List.contains_iff_mem]
    exact List.rel_mem unique same sofar
  dsimp only
  rw [again]
  split
  · exact sofar
  · exact List.rel_append sofar (.cons same .nil)

variable {graph : Graph}

theorem mem_targets {id other : String} {type : EdgeType} :
    other ∈ graph.targets id type ↔ ⟨id, other, type⟩ ∈ graph.edges :=
  mem_distinct.trans (@GraphEdge.mem_scan graph.edges .outgoing type id other)

theorem mem_sources {id other : String} {type : EdgeType} :
    other ∈ graph.sources id type ↔ ⟨other, id, type⟩ ∈ graph.edges :=
  mem_distinct.trans (@GraphEdge.mem_scan graph.edges .incoming type id other)

/-- Where the node with an id stands. -/
def StandsAt (graph : Graph) (place : Nat) (id : String) : Prop :=
  (graph.nodes.map (·.id))[place]? = some id

theorem standsAt_of_node {place : Nat} {node : GraphNode} (stands : graph.nodes[place]? = some node) :
    graph.StandsAt place node.id := by
  rw [StandsAt, List.getElem?_map, stands]
  rfl

end Graph

/-- What stands by ascending numbers is how it is sorted by them. -/
theorem mergeSort_eq_of_ascending {items sorted : List (Nat × Nat)} (same : items.Perm sorted)
    (ascending : sorted.Pairwise fun first second => first.1 < second.1) :
    items.mergeSort (fun first second => first.1 ≤ second.1) = sorted := by
  have distinct : (sorted.map Prod.fst).Nodup := List.pairwise_map.mpr (ascending.imp Nat.ne_of_lt)
  have perm : (items.mergeSort fun first second => first.1 ≤ second.1).Perm sorted :=
    (List.mergeSort_perm _ _).trans same
  have ordered : (items.mergeSort fun first second => first.1 ≤ second.1).Pairwise
      fun first second => decide (first.1 ≤ second.1) = true := by
    refine List.pairwise_mergeSort (fun first second third below above => ?_) (fun _ _ => ?_) items
    · exact decide_eq_true (Nat.le_trans (of_decide_eq_true below) (of_decide_eq_true above))
    · simpa only [Bool.or_eq_true, decide_eq_true_eq] using Nat.le_total _ _
  refine perm.eq_of_pairwise (fun first second inFirst inSecond below above => ?_) ordered
    (ascending.imp fun less => decide_eq_true (Nat.le_of_lt less))
  refine List.inj_on_of_nodup_map distinct (perm.subset inFirst) inSecond ?_
  exact Nat.le_antisymm (of_decide_eq_true below) (of_decide_eq_true above)

namespace Arena

/-- The numbers of the links only serve to put them in order. -/
theorem neighborPlaces_eq (arena : Arena) (incidence : Incidence) (direction : Direction)
    (type : EdgeType) (place : Nat) :
    arena.neighborPlaces incidence direction type place =
      Graph.distinct ((arena.links.filter fun link =>
        link.near direction == place && link.type == type).map (·.far direction)) := by
  let numbered := (arena.links.zipIdx.filter fun entry =>
    entry.1.near direction == place && entry.1.type == type).map fun entry =>
      (entry.2, entry.1.far direction)
  have all := (incidence.all arena.links direction place).filter fun entry => entry.1.type == type
  rw [List.filter_filter] at all
  simp only [Bool.and_comm (_ == type)] at all
  have ascending : numbered.Pairwise fun first second => first.1 < second.1 := by
    have numbers : (arena.links.zipIdx.map Prod.snd).Pairwise (· < ·) := by
      rw [List.zipIdx_map_snd]
      exact List.pairwise_lt_range'
    exact List.pairwise_map.mpr ((List.pairwise_map.mp numbers).sublist List.filter_sublist)
  have links : arena.links.zipIdx.map Prod.fst = arena.links := List.zipIdx_map_fst ..
  unfold neighborPlaces
  dsimp only
  rw [mergeSort_eq_of_ascending (all.map _) ascending]
  conv_rhs => rw [← links]
  rw [List.map_map, List.filter_map, List.map_map]
  rfl

namespace Keeps

variable {arena : Arena} {graph : Graph}

section Places

variable (keeps : arena.Keeps graph)

include keeps

theorem places_iff {id : String} {place : Nat} :
    arena.places[id]? = some place ↔ graph.StandsAt place id :=
  keeps.places id place

/-- Places and ids tell each other. -/
theorem biUnique : Relator.BiUnique graph.StandsAt :=
  ⟨fun _ _ _ first second => keeps.places.place_unique first second,
    fun _ _ _ first second => Option.some.inj (first.symm.trans second)⟩

theorem neighborPlaces_stand (incidence : Incidence) (direction : Direction) (type : EdgeType)
    {place : Nat} {id : String} (stands : graph.StandsAt place id) :
    (arena.neighborPlaces incidence direction type place).Forall₂ graph.StandsAt
      (Graph.distinct (GraphEdge.scan graph.edges direction type id)) := by
  have ends {link : Link} {edge : GraphEdge} (made : edgeOf? graph.nodes link = some edge) :
      graph.StandsAt (link.near direction) (edge.near direction) ∧
        graph.StandsAt (link.far direction) (edge.far direction) ∧ link.type = edge.type := by
    obtain ⟨source, target, atSource, atTarget, rfl⟩ := edgeOf?_eq_some_iff.mp made
    have first := Graph.standsAt_of_node atSource
    have second := Graph.standsAt_of_node atTarget
    cases direction with
    | outgoing => exact ⟨first, second, rfl⟩
    | incoming => exact ⟨second, first, rfl⟩
  rw [neighborPlaces_eq, GraphEdge.scan]
  refine Graph.rel_distinct keeps.biUnique
    (List.forall₂_map_left_iff.mpr (List.forall₂_map_right_iff.mpr ?_))
  refine List.Forall₂.imp (fun _ _ made => (ends made).2.1)
    (List.rel_filter (fun link edge made => ?_) keeps.links)
  obtain ⟨near, _, same⟩ := ends made
  have here : link.near direction = place ↔ edge.near direction = id :=
    Relator.rel_eq keeps.biUnique near stands
  simp only [Bool.and_eq_true, beq_iff_eq, here, same]

theorem exists_node_of_stands {place : Nat} {id : String} (stands : graph.StandsAt place id) :
    ∃ node ∈ arena.nodes, arena.nodes[place]? = some node ∧ node.id = id := by
  obtain ⟨node, here, same⟩ := Option.map_eq_some_iff.mp ((List.getElem?_map ..).symm.trans stands)
  rw [← keeps.nodes] at here
  exact ⟨node, List.mem_of_getElem? here, here, same⟩

/-- The nodes that stand at the places of ids have these ids. -/
theorem nodes_of_places {places : List Nat} {ids : List String}
    (stand : places.Forall₂ graph.StandsAt ids) :
    ∃ nodes, places.mapM (arena.nodes[·]?) = some nodes ∧ nodes.map (·.id) = ids ∧
      nodes ⊆ arena.nodes := by
  induction stand with
  | nil => exact ⟨[], rfl, rfl, List.nil_subset _⟩
  | @cons place id places ids first _ ih =>
    obtain ⟨nodes, found, named, inside⟩ := ih
    obtain ⟨node, member, here, same⟩ := keeps.exists_node_of_stands first
    refine ⟨node :: nodes, ?_, ?_, List.cons_subset.mpr ⟨member, inside⟩⟩
    · rw [List.mapM_cons, here, found]
      rfl
    · rw [List.map_cons, named, same]

/-- No relation touches a node that is not there. -/
theorem scan_of_unknown (direction : Direction) (type : EdgeType) {id : String}
    (unknown : arena.contains id = false) : GraphEdge.scan graph.edges direction type id = [] := by
  refine List.eq_nil_iff_forall_not_mem.mpr fun other found => ?_
  have joined := Bool.and_eq_true_iff.mp (keeps.joins_of_mem (GraphEdge.mem_scan.mp found))
  rw [keeps.contains_eq] at unknown
  cases direction with
  | outgoing => exact Bool.false_ne_true (unknown.symm.trans joined.1)
  | incoming => exact Bool.false_ne_true (unknown.symm.trans joined.2)

end Places

end Keeps

/-- The nodes of an arena with the given ids, in this order. -/
def Yields (arena : Arena) (answer : Option (List GraphNode)) (ids : List String) : Prop :=
  ∃ nodes, answer = some nodes ∧ nodes.map (·.id) = ids ∧ nodes ⊆ arena.nodes

theorem Keeps.neighbors_yield {arena : Arena} {graph : Graph} (keeps : arena.Keeps graph)
    (incidence : Incidence) (direction : Direction) (type : EdgeType) (id : String) :
    arena.Yields (arena.neighbors? incidence direction type id)
      (Graph.distinct (GraphEdge.scan graph.edges direction type id)) := by
  unfold neighbors?
  cases known : arena.places[id]? with
  | some place =>
    exact keeps.nodes_of_places
      (keeps.neighborPlaces_stand incidence direction type (keeps.places_iff.mp known))
  | none =>
    have unknown : arena.contains id = false := by rw [contains, known]; rfl
    rw [keeps.scan_of_unknown direction type unknown]
    exact ⟨[], rfl, rfl, List.nil_subset _⟩

/-- The answer to a question is what a scan of the relations finds: nodes of the arena, each once, in the
order in which a relation first leads to them. -/
structure Finds (arena : Arena) (answer : Option (List GraphNode)) (ids : List String)
    (direction : Direction) (type : EdgeType) (id : String) : Prop where
  yields : arena.Yields answer ids
  scans : InOrderOfFirst (GraphEdge.scan arena.edges direction type id) ids
  unknown : arena.contains id = false → ids = []

theorem Keeps.finds {arena : Arena} {graph : Graph} (keeps : arena.Keeps graph) (incidence : Incidence)
    (direction : Direction) (type : EdgeType) (id : String) :
    arena.Finds (arena.neighbors? incidence direction type id)
      (Graph.distinct (GraphEdge.scan graph.edges direction type id)) direction type id := by
  refine ⟨keeps.neighbors_yield incidence direction type id, ?_, fun unknown => ?_⟩
  · rw [keeps.edges_eq]
    exact Graph.inOrderOfFirst_distinct _
  · rw [keeps.scan_of_unknown direction type unknown]
    rfl

/-- However a graph begins and whatever is added to it, and whichever order the links of a node come in:
callers, callees, imports, importers and symbols are what a scan of all relations finds, so that one of
two nodes calls or imports the other one if that one is called or imported by it, and if there is such a
relation. -/
theorem neighbours_scan {origin : Origin} {first : Graph} (begins : origin.graph? = some first)
    (steps : List Graph.Step) (incidence : Incidence) :
    ∃ start, origin.arena? = some start ∧
      let arena := start.afterAll steps
      let graph := first.afterAll steps
      (∀ id,
        arena.Finds (arena.callersOf? incidence id) (graph.callersOf id) .incoming .calls id ∧
        arena.Finds (arena.calleesOf? incidence id) (graph.calleesOf id) .outgoing .calls id ∧
        arena.Finds (arena.importsOf? incidence id) (graph.importsOf id) .outgoing .imports id ∧
        arena.Finds (arena.importersOf? incidence id) (graph.importersOf id) .incoming .imports id ∧
        arena.Finds (arena.symbolsIn? incidence id) (graph.symbolsIn id) .outgoing .contains id) ∧
      ∀ source target,
        (source ∈ graph.callersOf target ↔ target ∈ graph.calleesOf source) ∧
        (target ∈ graph.calleesOf source ↔ arena.hasEdge ⟨source, target, .calls⟩ = true) ∧
        (source ∈ graph.importersOf target ↔ target ∈ graph.importsOf source) ∧
        (target ∈ graph.importsOf source ↔ arena.hasEdge ⟨source, target, .imports⟩ = true) := by
  obtain ⟨start, started, keeps⟩ := Origin.exists_arena begins
  refine ⟨start, started, ?_⟩
  intro arena graph
  have kept : arena.Keeps graph := keeps.afterAll steps
  refine ⟨fun id => ⟨kept.finds incidence _ _ id, kept.finds incidence _ _ id,
    kept.finds incidence _ _ id, kept.finds incidence _ _ id, kept.finds incidence _ _ id⟩,
    fun source target => ?_⟩
  have related (type : EdgeType) : target ∈ graph.targets source type ↔
      arena.hasEdge ⟨source, target, type⟩ = true :=
    Graph.mem_targets.trans (kept.hasEdge_iff _).symm
  have converse (type : EdgeType) :
      source ∈ graph.sources target type ↔ target ∈ graph.targets source type :=
    Graph.mem_sources.trans Graph.mem_targets.symm
  exact ⟨converse .calls, related .calls, converse .imports, related .imports⟩

/-- Two files call each other, one of them twice and itself too, and it imports the other one in between.
The links of a file come last first. -/
theorem neighbours_scan_parallel :
    let steps : List Graph.Step := [.addNode (.ofFile "a"), .addNode (.ofFile "b"),
      .addEdge ⟨"file:a", "file:b", .calls⟩, .addEdge ⟨"file:a", "file:b", .imports⟩,
      .addEdge ⟨"file:a", "file:a", .calls⟩, .addEdge ⟨"file:b", "file:a", .calls⟩,
      .addEdge ⟨"file:a", "file:b", .calls⟩]
    Origin.empty.graph? = some .empty ∧
      ∃ start, Origin.empty.arena? = some start ∧
        let arena := start.afterAll steps
        arena.Yields (arena.calleesOf? .lastFirst "file:a") ["file:b", "file:a"] ∧
        arena.Yields (arena.callersOf? .lastFirst "file:a") ["file:a", "file:b"] ∧
        arena.Yields (arena.importersOf? .lastFirst "file:b") ["file:a"] ∧
        arena.Yields (arena.symbolsIn? .lastFirst "file:c") [] ∧
        arena.hasEdge ⟨"file:b", "file:a", .imports⟩ = false := by
  intro steps
  have begins : Origin.empty.graph? = some .empty := rfl
  obtain ⟨start, started, finds, related⟩ := neighbours_scan begins steps .lastFirst
  obtain ⟨callers, callees, _⟩ := finds "file:a"
  obtain ⟨_, _, _, importers, _⟩ := finds "file:b"
  obtain ⟨_, _, _, _, symbols⟩ := finds "file:c"
  refine ⟨begins, start, started, callees.yields, callers.yields, importers.yields, symbols.yields, ?_⟩
  refine Bool.eq_false_iff.mpr fun has => ?_
  have member := (related "file:b" "file:a").2.2.2.mpr has
  revert member
  decide

end Arena

end CodeAtlas
