import CodeAtlas.Proofs.Graph.Neighbours
import CodeAtlas.Proofs.Graph.Search

namespace CodeAtlas

/-- What a node imports over others, if the search for it is over after so many rounds. -/
def Arena.transitiveImports? (arena : Arena) (incidence : Incidence) (rounds : Nat) (id : String)
    (maxDepth : Nat) : Option (List (GraphNode × Nat)) :=
  match arena.places[id]? with
  | none => some []
  | some place =>
    let walk := Graph.Walk.search (arena.neighborPlaces incidence .outgoing .imports) maxDepth rounds
      (.start place)
    if walk.queue.isEmpty then walk.found.mapM fun entry => (arena.nodes[entry.1]?).map (·, entry.2)
    else none

namespace Graph

variable {graph : Graph} {id : String} {maxDepth : Nat}

/-- An import leads from a file to another one. -/
def imports (graph : Graph) (source target : String) : Prop := ⟨source, target, .imports⟩ ∈ graph.edges

theorem mem_importsOf : (fun node other => other ∈ graph.importsOf node) = graph.imports :=
  funext fun _ => funext fun _ => propext mem_targets

/-- The search for what a node imports. -/
def importWalk (graph : Graph) (id : String) (maxDepth rounds : Nat) : Walk String :=
  Walk.search graph.importsOf maxDepth rounds (.start id)

theorem transitiveImports_eq_importWalk (known : graph.contains id = true) (maxDepth : Nat) :
    graph.transitiveImports id maxDepth = (graph.importWalk id maxDepth graph.nodes.length).found :=
  if_pos known

theorem transitiveImports_of_unknown (unknown : graph.contains id = false) (maxDepth : Nat) :
    graph.transitiveImports id maxDepth = [] :=
  if_neg (Bool.eq_false_iff.mp unknown)

theorem WellFormed.contains (wellFormed : graph.WellFormed) {source target : String}
    (imports : graph.imports source target) :
    graph.contains source = true ∧ graph.contains target = true :=
  Bool.and_eq_true_iff.mp (wellFormed.joined _ imports)

theorem mem_ids_of_contains (known : graph.contains id = true) : id ∈ graph.nodes.map (·.id) :=
  List.mem_map.mpr (contains_eq_true_iff.mp known)

/-- The search is over after as many rounds as there are nodes. -/
theorem WellFormed.exists_sound (wellFormed : graph.WellFormed) (known : graph.contains id = true)
    (maxDepth : Nat) :
    ∃ done,
      Walk.Sound graph.importsOf maxDepth id (graph.importWalk id maxDepth graph.nodes.length) done ∧
        (graph.importWalk id maxDepth graph.nodes.length).queue = [] := by
  obtain ⟨done, sound, ended⟩ :=
    (Walk.sound_start graph.importsOf maxDepth id).search graph.nodes.length
  refine ⟨done, sound, sound.queue_eq_nil (graph.nodes.map (·.id)) (fun entry found => ?_) ?_⟩
  · refine (sound.trails entry found).mem (fun node other leads => ?_) (mem_ids_of_contains known)
    exact mem_ids_of_contains (wellFormed.contains (mem_targets.mp leads)).2
  · refine ended.imp_right fun length => ?_
    rw [length, List.length_map, List.length_nil, Nat.zero_add]

/-- Later rounds find nothing more. -/
theorem WellFormed.importWalk_eq (wellFormed : graph.WellFormed) (known : graph.contains id = true)
    (maxDepth : Nat) {rounds : Nat} (enough : graph.nodes.length ≤ rounds) :
    graph.importWalk id maxDepth rounds = graph.importWalk id maxDepth graph.nodes.length := by
  obtain ⟨_, _, ended⟩ := wellFormed.exists_sound known maxDepth
  obtain ⟨more, rfl⟩ := Nat.exists_eq_add_of_le enough
  rw [importWalk, Walk.search_add]
  exact Walk.search_of_empty ended ..

theorem WellFormed.mem_transitiveImports (wellFormed : graph.WellFormed) {other : String} {distance : Nat} :
    (other, distance) ∈ graph.transitiveImports id maxDepth ↔
      other ≠ id ∧ distance ≤ maxDepth ∧ IsDistance graph.imports id other distance := by
  cases known : graph.contains id with
  | true =>
    obtain ⟨_, sound, ended⟩ := wellFormed.exists_sound known maxDepth
    rw [transitiveImports_eq_importWalk known, sound.mem_found_iff ended, mem_importsOf]
  | false =>
    rw [transitiveImports_of_unknown known]
    refine iff_of_false List.not_mem_nil ?_
    rintro ⟨_, _, ⟨steps, trail⟩, _⟩
    obtain ⟨next, imports⟩ := trail.exists_leads steps
    exact Bool.false_ne_true (known.symm.trans (wellFormed.contains imports).1)

theorem WellFormed.nodup_transitiveImports (wellFormed : graph.WellFormed) (id : String) (maxDepth : Nat) :
    ((graph.transitiveImports id maxDepth).map (·.1)).Nodup := by
  cases known : graph.contains id with
  | true =>
    obtain ⟨_, sound, _⟩ := wellFormed.exists_sound known maxDepth
    rw [transitiveImports_eq_importWalk known]
    exact (List.nodup_cons.mp sound.distinct).2
  | false =>
    rw [transitiveImports_of_unknown known]
    exact List.nodup_nil

theorem WellFormed.sorted_transitiveImports (wellFormed : graph.WellFormed) (id : String) (maxDepth : Nat) :
    (graph.transitiveImports id maxDepth).Pairwise fun nearer farther => nearer.2 ≤ farther.2 := by
  cases known : graph.contains id with
  | true =>
    obtain ⟨_, sound, _⟩ := wellFormed.exists_sound known maxDepth
    rw [transitiveImports_eq_importWalk known]
    exact (List.pairwise_cons.mp sound.sorted).2
  | false =>
    rw [transitiveImports_of_unknown known]
    exact .nil

/-- A smaller bound only leaves out what is too far away. -/
theorem WellFormed.transitiveImports_of_le (wellFormed : graph.WellFormed) (id : String) {less : Nat}
    (le : less ≤ maxDepth) :
    graph.transitiveImports id less =
      (graph.transitiveImports id maxDepth).filter fun entry => entry.2 ≤ less := by
  cases known : graph.contains id with
  | true =>
    obtain ⟨_, sound, _⟩ := wellFormed.exists_sound known less
    have further : ∃ more, (graph.importWalk id maxDepth graph.nodes.length).found =
        (graph.importWalk id less graph.nodes.length).found ++ more ∧ ∀ entry ∈ more, less < entry.2 :=
      (Walk.sound_start graph.importsOf less id).found_further le graph.nodes.length
    obtain ⟨more, split, far⟩ := further
    have near : ∀ entry ∈ (graph.importWalk id less graph.nodes.length).found, entry.2 ≤ less :=
      fun entry found => sound.bounded entry (List.mem_cons_of_mem _ found)
    have kept := List.filter_eq_self.mpr fun entry found => decide_eq_true (near entry found)
    have dropped : more.filter (fun entry => decide (entry.2 ≤ less)) = [] :=
      List.filter_eq_nil_iff.mpr fun entry found => by simpa using far entry found
    rw [transitiveImports_eq_importWalk known, transitiveImports_eq_importWalk known, split,
      List.filter_append, kept, dropped, List.append_nil]
  | false => rw [transitiveImports_of_unknown known, transitiveImports_of_unknown known, List.filter_nil]

end Graph

namespace Arena

variable {arena : Arena} {graph : Graph}

/-- The nodes of an arena with the given ids, in this order, each with its distance. -/
def YieldsAt (arena : Arena) (answer : Option (List (GraphNode × Nat))) (ids : List (String × Nat)) :
    Prop :=
  ∃ reached, answer = some reached ∧ reached.map (fun entry => (entry.1.id, entry.2)) = ids ∧
    ∀ entry ∈ reached, entry.1 ∈ arena.nodes

namespace Keeps

variable (keeps : arena.Keeps graph)

include keeps

theorem entries_of_places {places : List (Nat × Nat)} {ids : List (String × Nat)}
    (stand : places.Forall₂ (fun entry entry' => graph.StandsAt entry.1 entry'.1 ∧ entry.2 = entry'.2)
      ids) :
    arena.YieldsAt (places.mapM fun entry => (arena.nodes[entry.1]?).map (·, entry.2)) ids := by
  induction stand with
  | nil => exact ⟨[], rfl, rfl, fun _ nothing => nomatch nothing⟩
  | @cons place id places ids first _ ih =>
    obtain ⟨reached, found, named, inside⟩ := ih
    obtain ⟨node, member, here, same⟩ := keeps.exists_node_of_stands first.1
    refine ⟨(node, place.2) :: reached, ?_, ?_, List.forall_mem_cons.mpr ⟨member, inside⟩⟩
    · rw [List.mapM_cons, here, found]
      rfl
    · rw [List.map_cons, named, same, first.2]

theorem wellFormed : graph.WellFormed := ⟨keeps.distinct, fun _ => keeps.joins_of_mem⟩

/-- The search from place to place finds what the search from id to id finds. -/
theorem transitiveImports_yield (incidence : Incidence) (id : String) (maxDepth : Nat) {rounds : Nat}
    (enough : arena.nodes.length ≤ rounds) :
    arena.YieldsAt (arena.transitiveImports? incidence rounds id maxDepth)
      (graph.transitiveImports id maxDepth) := by
  have same := keeps.contains_eq id
  unfold contains at same
  unfold transitiveImports?
  cases found : arena.places[id]? with
  | none =>
    rw [found] at same
    rw [Graph.transitiveImports_of_unknown same.symm]
    exact ⟨[], rfl, rfl, fun _ nothing => nomatch nothing⟩
  | some place =>
    rw [found] at same
    have known : graph.contains id = true := same.symm
    have alike : Graph.Walk.Related graph.StandsAt
        (.search (arena.neighborPlaces incidence .outgoing .imports) maxDepth rounds (.start place))
        (graph.importWalk id maxDepth rounds) :=
      (Graph.Walk.related_start (keeps.places_iff.mp found)).search keeps.biUnique
        (fun _ _ stands => keeps.neighborPlaces_stand incidence .outgoing .imports stands) maxDepth rounds
    rw [keeps.wellFormed.importWalk_eq known maxDepth (keeps.nodes ▸ enough)] at alike
    obtain ⟨_, _, ended⟩ := keeps.wellFormed.exists_sound known maxDepth
    have waiting := alike.queue
    rw [ended, List.forall₂_nil_right_iff] at waiting
    dsimp only
    rw [waiting, Graph.transitiveImports_eq_importWalk known]
    exact keeps.entries_of_places alike.found

end Keeps

/-- However a graph begins and whatever is added to it, cycles and repeated relations included, and
whichever order the links of a node come in: the search for what a node imports over others is over after
as many rounds as there are nodes, whatever the bound. It finds the other nodes that can be reached by at
least one import and no more than the bound, each once and at the length of a shortest way, nearer ones
first; nothing if the node is not there; and with a smaller bound it finds what is near enough of this,
in the same order. -/
theorem transitiveImports_shortest {origin : Origin} {first : Graph} (begins : origin.graph? = some first)
    (steps : List Graph.Step) (incidence : Incidence) :
    ∃ start, origin.arena? = some start ∧
      let arena := start.afterAll steps
      let graph := first.afterAll steps
      let imports (source target : String) : Prop := ⟨source, target, .imports⟩ ∈ arena.edges
      ∀ id maxDepth,
        let reached := graph.transitiveImports id maxDepth
        (∀ rounds, arena.nodes.length ≤ rounds →
          arena.YieldsAt (arena.transitiveImports? incidence rounds id maxDepth) reached) ∧
        (∀ other distance, (other, distance) ∈ reached ↔
          other ≠ id ∧ distance ≤ maxDepth ∧ IsDistance imports id other distance) ∧
        (reached.map (·.1)).Nodup ∧
        (reached.Pairwise fun nearer farther => nearer.2 ≤ farther.2) ∧
        (arena.contains id = false → reached = []) ∧
        ∀ less ≤ maxDepth,
          graph.transitiveImports id less = reached.filter fun entry => entry.2 ≤ less := by
  obtain ⟨start, started, keeps⟩ := Origin.exists_arena begins
  refine ⟨start, started, ?_⟩
  intro arena graph imports id maxDepth reached
  have kept : arena.Keeps graph := keeps.afterAll steps
  have related : imports = graph.imports := by
    funext source target
    exact congrArg (⟨source, target, .imports⟩ ∈ ·) kept.edges_eq
  refine ⟨fun rounds enough => kept.transitiveImports_yield incidence id maxDepth enough,
    fun other distance => ?_, kept.wellFormed.nodup_transitiveImports id maxDepth,
    kept.wellFormed.sorted_transitiveImports id maxDepth, fun unknown => ?_,
    fun less le => kept.wellFormed.transitiveImports_of_le id le⟩
  · rw [related]
    exact kept.wellFormed.mem_transitiveImports
  · rw [kept.contains_eq] at unknown
    exact Graph.transitiveImports_of_unknown unknown maxDepth

/-- Three files import each other in a circle, one of them itself and another one twice, and one of them
a file outside of the circle. -/
theorem transitiveImports_shortest_circle :
    let steps : List Graph.Step := [.addNode (.ofFile "a"), .addNode (.ofFile "b"),
      .addNode (.ofFile "c"), .addNode (.ofFile "d"), .addEdge ⟨"file:a", "file:a", .imports⟩,
      .addEdge ⟨"file:a", "file:b", .imports⟩, .addEdge ⟨"file:b", "file:c", .imports⟩,
      .addEdge ⟨"file:b", "file:c", .imports⟩, .addEdge ⟨"file:c", "file:a", .imports⟩,
      .addEdge ⟨"file:c", "file:d", .imports⟩]
    Origin.empty.graph? = some .empty ∧
      ∃ start, Origin.empty.arena? = some start ∧
        let arena := start.afterAll steps
        arena.YieldsAt (arena.transitiveImports? .lastFirst 4 "file:a" 18446744073709551615)
          [("file:b", 1), ("file:c", 2), ("file:d", 3)] ∧
        arena.YieldsAt (arena.transitiveImports? .lastFirst 4 "file:a" 1) [("file:b", 1)] ∧
        arena.YieldsAt (arena.transitiveImports? .lastFirst 4 "file:e" 1) [] := by
  intro steps
  have begins : Origin.empty.graph? = some .empty := rfl
  obtain ⟨start, started, shortest⟩ := transitiveImports_shortest begins steps .lastFirst
  have rounds : (start.afterAll steps).nodes.length ≤ 4 := by
    obtain rfl := Option.some.inj started
    exact ((Keeps.empty.afterAll steps).nodes ▸ by decide)
  exact ⟨begins, start, started, (shortest _ _).1 4 rounds, (shortest _ _).1 4 rounds,
    (shortest _ _).1 4 rounds⟩

end Arena

end CodeAtlas
