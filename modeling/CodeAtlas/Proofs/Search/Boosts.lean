import CodeAtlas.Search.Hit
import CodeAtlas.Proofs.Graph.Connectivity
import CodeAtlas.Proofs.Graph.Neighbours
import CodeAtlas.Proofs.Index.Query

namespace CodeAtlas

open CodeAtlas.Embedding (Below bitsAt)

namespace Graph

variable {graph : Graph} {paths : List String} {path other : String}

/-- Whether a file imports another one. -/
def importsFile (graph : Graph) (path other : String) : Bool :=
  graph.hasEdge ⟨GraphNode.fileId path, GraphNode.fileId other, .imports⟩

theorem fileId_mem_importsOf :
    GraphNode.fileId other ∈ graph.importsOf (GraphNode.fileId path) ↔
      graph.importsFile path other = true := by
  rw [importsOf, mem_targets, importsFile, hasEdge, List.contains_iff_mem]

theorem fileId_mem_importersOf :
    GraphNode.fileId other ∈ graph.importersOf (GraphNode.fileId path) ↔
      graph.importsFile other path = true := by
  rw [importersOf, mem_sources, importsFile, hasEdge, List.contains_iff_mem]

/-- The id is that of one of the files. -/
def IsFileAmong (graph : Graph) (paths : List String) (id : String) : Prop :=
  ∃ path ∈ paths, id = GraphNode.fileId path ∧ graph.pathOf? id = some path

/-- Ids of files without repetitions are as many as the files. -/
theorem length_eq_countP {ids : List String} {p : String → Bool} (different : ids.Nodup)
    (apart : paths.Nodup) (files : ∀ id ∈ ids, graph.IsFileAmong paths id)
    (told : ∀ path ∈ paths, GraphNode.fileId path ∈ ids ↔ p path = true) :
    ids.length = paths.countP p := by
  have found : ((paths.filter p).map GraphNode.fileId).Nodup :=
    (apart.filter p).map fun _ _ => GraphNode.fileId_injective
  have same : ids.Perm ((paths.filter p).map GraphNode.fileId) := by
    refine (List.perm_ext_iff_of_nodup different found).mpr fun id => ?_
    rw [List.mem_map]
    constructor
    · intro member
      obtain ⟨path, listed, rfl, _⟩ := files id member
      exact ⟨path, List.mem_filter.mpr ⟨listed, (told path listed).mp member⟩, rfl⟩
    · rintro ⟨path, kept, rfl⟩
      obtain ⟨listed, holds⟩ := List.mem_filter.mp kept
      exact (told path listed).mpr holds
  rw [same.length_eq, List.length_map, List.countP_eq_length_filter]

namespace LinksFiles

variable (links : graph.LinksFiles paths)

include links

/-- Both ends of an import are files. -/
theorem ends_of_import {source target : String}
    (joined : (⟨source, target, .imports⟩ : GraphEdge) ∈ graph.edges) :
    graph.IsFileAmong paths source ∧ graph.IsFileAmong paths target := by
  obtain ⟨path, inPaths, other, otherInPaths, same, ends⟩ :=
    links.imports _ (mem_edgesOf.mpr ⟨joined, rfl⟩)
  obtain ⟨ofSource, ofTarget⟩ := endPaths?_eq_some_iff.mp ends
  cases same
  exact ⟨⟨path, inPaths, rfl, ofSource⟩, other, otherInPaths, rfl, ofTarget⟩

theorem file_of_mem_importsOf {id near : String} (member : id ∈ graph.importsOf near) :
    graph.IsFileAmong paths id :=
  (links.ends_of_import (mem_targets.mp member)).2

theorem file_of_mem_importersOf {id near : String} (member : id ∈ graph.importersOf near) :
    graph.IsFileAmong paths id :=
  (links.ends_of_import (mem_sources.mp member)).1

theorem imports_eq_countP (apart : paths.Nodup) (path : String) :
    (graph.connectivityOf path).imports = paths.countP (graph.importsFile path) := by
  rw [links.imports_connectivityOf]
  exact length_eq_countP (nodup_distinct _) apart (fun _ => links.file_of_mem_importsOf)
    fun _ _ => fileId_mem_importsOf

theorem importedBy_eq_countP (apart : paths.Nodup) (path : String) :
    (graph.connectivityOf path).importedBy = paths.countP (graph.importsFile · path) := by
  rw [links.importedBy_connectivityOf]
  exact length_eq_countP (nodup_distinct _) apart (fun _ => links.file_of_mem_importersOf)
    fun _ _ => fileId_mem_importersOf

/-- The files next to a file are those that it imports and those that import it. -/
theorem mem_neighbours :
    other ∈ Boost.neighbours graph path ↔
      (graph.importsFile path other || graph.importsFile other path) = true := by
  have ids : Boost.neighbours graph path =
      (graph.importsOf (GraphNode.fileId path) ++
        graph.importersOf (GraphNode.fileId path)).filterMap graph.pathOf? :=
    List.filterMap_filterMap
  rw [ids, List.mem_filterMap, Bool.or_eq_true, ← fileId_mem_importsOf, ← fileId_mem_importersOf,
    ← List.mem_append]
  have file : ∀ id ∈ graph.importsOf (GraphNode.fileId path) ++
      graph.importersOf (GraphNode.fileId path), graph.IsFileAmong paths id := by
    intro id member
    exact (List.mem_append.mp member).elim links.file_of_mem_importsOf links.file_of_mem_importersOf
  constructor
  · rintro ⟨id, member, found⟩
    obtain ⟨named, _, rfl, own⟩ := file id member
    obtain rfl := Option.some.inj (own.symm.trans found)
    exact member
  · intro member
    obtain ⟨named, _, same, own⟩ := file _ member
    rw [← GraphNode.fileId_injective same] at own
    exact ⟨_, member, own⟩

end LinksFiles

end Graph

namespace Boost

variable {graph : Graph} {hits : List SearchHit} {index other : Nat}

/-- Whether the results at two places are in files one of which imports the other. -/
def areRelated (graph : Graph) (hits : List SearchHit) (index other : Nat) : Bool :=
  index != other &&
    (hits[index]?.bind (·.path)).any fun path =>
      (hits[other]?.bind (·.path)).any fun next =>
        graph.importsFile path next || graph.importsFile next path

theorem areRelated_comm (graph : Graph) (hits : List SearchHit) (index other : Nat) :
    areRelated graph hits index other = areRelated graph hits other index := by
  unfold areRelated
  cases hits[index]?.bind (·.path) with
  | none => cases hits[other]?.bind (·.path) <;> simp
  | some path =>
    cases hits[other]?.bind (·.path) with
    | none => simp
    | some next => simp [bne_comm, Bool.or_comm]

/-- Counting the items with their numbers is counting the numbers. -/
theorem countP_zipIdx {α : Type} {items : List α} {p : α × Nat → Bool} {q : Nat → Bool}
    (told : ∀ item number, items[number]? = some item → p (item, number) = q number) :
    items.zipIdx.countP p = (List.range items.length).countP q := by
  rw [List.range_eq_range', ← List.zipIdx_map_snd 0 items, List.countP_map]
  refine List.countP_congr fun pair member => ?_
  rw [Function.comp, told pair.1 pair.2 (List.mk_mem_zipIdx_iff_getElem?.mp member)]

theorem countRelated_eq {paths : List String} (links : graph.LinksFiles paths) {path : String}
    (found : hits[index]?.bind (·.path) = some path) :
    countRelated (neighbours graph path) (hits.map (·.path)) index =
      (List.range hits.length).countP (areRelated graph hits index) := by
  have count : (hits.map (·.path)).length = hits.length := List.length_map _
  rw [countRelated, ← count]
  refine countP_zipIdx fun own number listed => ?_
  rw [List.getElem?_map, Option.map_eq_some_iff] at listed
  obtain ⟨hit, atNumber, rfl⟩ := listed
  have near : ∀ next, (neighbours graph path).contains next =
      (graph.importsFile path next || graph.importsFile next path) := by
    intro next
    rw [Bool.eq_iff_iff, List.contains_iff_mem, links.mem_neighbours]
  rw [areRelated, found, atNumber, bne_comm, Option.any_some, Option.bind_some, ← funext near]

/-- The factor of a result by what its file is related to among the files of the graph. -/
theorem multiplier_eq {paths : List String} (links : graph.LinksFiles paths) (apart : paths.Nodup)
    {path : String} (known : graph.contains (GraphNode.fileId path) = true)
    (found : hits[index]?.bind (·.path) = some path) :
    multiplier graph (graph.pathPairs .imports) (hits.map (·.path)) index (some path) =
      fileMultiplier (paths.countP (graph.importsFile path))
        (paths.countP (graph.importsFile · path))
        ((List.range hits.length).countP (areRelated graph hits index)) := by
  rw [← links.imports_eq_countP apart, ← links.importedBy_eq_countP apart,
    ← countRelated_eq links found]
  exact if_pos known

/-- What raises a result at a place, given the files of the graph: that many of them import its file, that
its file imports many of them, and the other results in files that it imports or that import it. -/
def factorAmong (graph : Graph) (indexed : List String) (hits : List SearchHit) (index : Nat)
    (hit : SearchHit) : Float32 :=
  match hit.path with
  | none => 1.0
  | some path =>
    if path ∈ indexed then
      let central : Float32 :=
        if 2 < indexed.countP (graph.importsFile · path) then 1.0 + 0.3 else 1.0
      let integrating :=
        if 3 < indexed.countP (graph.importsFile path) then central + 0.2 else central
      integrating + 0.4 * ((List.range hits.length).countP (areRelated graph hits index)).toFloat32
    else 1.0

theorem multiplier_eq_factorAmong {paths : List String} (links : graph.LinksFiles paths)
    (apart : paths.Nodup)
    (files : ∀ path, graph.contains (GraphNode.fileId path) = true ↔ path ∈ paths) {hit : SearchHit}
    (listed : hits[index]? = some hit) :
    multiplier graph (graph.pathPairs .imports) (hits.map (·.path)) index hit.path =
      factorAmong graph paths hits index hit := by
  cases own : hit.path with
  | none => simp only [multiplier, factorAmong, own]
  | some path =>
    simp only [factorAmong, own]
    split
    · next known =>
      exact multiplier_eq links apart ((files path).mpr known) (by rw [listed]; exact own)
    · next unknown => exact if_neg (unknown ∘ (files path).mp)

/-- Raising keeps the results at their places and changes nothing but their factors and scores. -/
theorem raise_eq_mapIdx {paths : List String} (links : graph.LinksFiles paths) (apart : paths.Nodup)
    (files : ∀ path, graph.contains (GraphNode.fileId path) = true ↔ path ∈ paths)
    (hits : List SearchHit) :
    raise graph hits = hits.mapIdx fun index hit =>
      let factor := factorAmong graph paths hits index hit
      { hit with multiplier := factor, score := hit.score * factor } := by
  rw [List.mapIdx_eq_zipIdx_map, raise]
  refine List.map_congr_left fun pair member => ?_
  have listed := List.mk_mem_zipIdx_iff_getElem?.mp member
  dsimp only
  rw [multiplier_eq_factorAmong links apart files listed]

end Boost

/-- Results after a build that nobody cancels. One in no file of the graph keeps its score. Any other is
raised by how many files import its file and how many this imports, and by the other results in files
that import it or that it imports, which are raised by it in turn. All of them are there, higher scores
first, and those with equal scores in the order in which they came, whatever bits the machine has for
scores that are no numbers. -/
theorem Builder.build_boosts [Machine] (builder : Builder) (project : Project) {files : List String}
    (plain : ∀ path ∈ files.map Path.normalize, ':' ∉ path.toList) {cancelled : Nat → Bool}
    (goes : ∀ number < files.length, cancelled number = false) :
    ∃ built, (builder.build project cancelled files).1 = .ok built ∧
      let indexed := (project.indexed files).map (·.1)
      indexed.Nodup ∧
      (∀ path, built.graph.contains (GraphNode.fileId path) = true ↔ path ∈ indexed) ∧
      ∀ hits : List SearchHit,
        let raised := hits.mapIdx fun index hit =>
          let factor := Boost.factorAmong built.graph indexed hits index hit
          { hit with multiplier := factor, score := hit.score * factor }
        (∃ order : List (SearchHit × Nat), order.Perm raised.zipIdx ∧
          order.map (·.1) = Boost.apply built.graph hits ∧
          order.Pairwise fun first second =>
            Below (bitsAt second.2 second.1.score) (bitsAt first.2 first.1.score) ∨
              bitsAt first.2 first.1.score = bitsAt second.2 second.1.score ∧
                first.2 < second.2) ∧
        ∀ index other, Boost.areRelated built.graph hits index other =
          Boost.areRelated built.graph hits other index := by
  obtain ⟨written, ran⟩ := builder.build_of_not_cancelled project goes
  have links := Graph.linksFiles_build project plain
  have apart := project.nodup_indexed files
  have known : ∀ path, (Graph.build project files).1.contains (GraphNode.fileId path) = true ↔
      path ∈ (project.indexed files).map (·.1) := fun _ => Graph.contains_fileId_build
  refine ⟨_, ran, apart, known, fun hits => ⟨?_, Boost.areRelated_comm _ hits⟩⟩
  rw [Boost.apply, Boost.raise_eq_mapIdx links apart known]
  obtain ⟨order, perm, sorted, ordered⟩ := Embedding.exists_order SearchHit.score
    (hits.mapIdx fun index hit =>
      let factor := Boost.factorAmong (Graph.build project files).1 _ hits index hit
      { hit with multiplier := factor, score := hit.score * factor })
  exact ⟨order, perm, sorted, ordered.imp Embedding.precedes_iff.mp⟩

/-- Two results in a file that imports itself and three others, which import it, with one of these others,
one in no file and one in a file that the graph does not have. -/
theorem Builder.build_boosts_cycle :
    let hub : Outline :=
      ⟨[], [⟨"a", "./a", false⟩, ⟨"b", "./b", false⟩, ⟨"c", "./c", false⟩, ⟨"d", "./d", false⟩], []⟩
    let spoke : Outline := ⟨[], [⟨"a", "./a", false⟩], []⟩
    let project : Project :=
      ⟨fun _ => .text ".", fun path _ => .ok (if path = "a.ts" then hub else spoke)⟩
    let files := ["a.ts", "b.ts", "c.ts", "d.ts"]
    let hit (path : Option String) : SearchHit := ⟨⟨"", "", [], [1]⟩, 1.0, 1.0, 1.0, path⟩
    let raised (path : Option String) (factor : Float32) : SearchHit :=
      { hit path with multiplier := factor, score := 1.0 * factor }
    let most : Float32 := 1.0 + 0.3 + 0.2 + 0.4 * (2 : Nat).toFloat32
    ∃ built, ((new .unset).build project (fun _ => false) files).1 = .ok built ∧
      (Boost.apply built.graph
        [hit none, hit (some "a.ts"), hit (some "b.ts"), hit (some "x:y"), hit (some "a.ts")]).Perm
        [raised none 1.0, raised (some "a.ts") most,
          raised (some "b.ts") (1.0 + 0.4 * (2 : Nat).toFloat32), raised (some "x:y") 1.0,
          raised (some "a.ts") most] := by
  intro hub spoke project files hit raised most
  have paths : files.map Path.normalize = ["a.ts", "b.ts", "c.ts", "d.ts"] := by decide +kernel
  have plain : ∀ path ∈ files.map Path.normalize, ':' ∉ path.toList := by
    rw [paths]
    decide
  let never : Nat → Bool := fun _ => false
  have goes : ∀ number < files.length, never number = false := fun _ _ => rfl
  obtain ⟨built, ran, _, _, boosted⟩ := build_boosts (new .unset) project plain goes
  let hits := [hit none, hit (some "a.ts"), hit (some "b.ts"), hit (some "x:y"), hit (some "a.ts")]
  obtain ⟨⟨order, perm, sorted, _⟩, _⟩ := boosted hits
  have indexed : (project.indexed files).map (·.1) = ["a.ts", "b.ts", "c.ts", "d.ts"] := by
    decide +kernel
  have seen : ((new .unset).build project never files).1.toOption.map (fun built =>
      let counts (path : String) :=
        (["a.ts", "b.ts", "c.ts", "d.ts"].countP (built.graph.importsFile · path),
          ["a.ts", "b.ts", "c.ts", "d.ts"].countP (built.graph.importsFile path))
      (counts "a.ts", counts "b.ts", (List.range 5).map fun index =>
        (List.range 5).countP (Boost.areRelated built.graph hits index))) =
      some ((4, 4), (1, 1), [0, 2, 2, 0, 2]) := by
    decide +kernel
  rw [ran] at seen
  simp only [Except.toOption, Option.map_some, Option.some.injEq, Prod.mk.injEq, List.map_cons,
    List.map_nil, List.range, List.range.loop, List.cons.injEq, and_true] at seen
  obtain ⟨⟨importers, imports⟩, ⟨importers', imports'⟩, _, first, second, _, third⟩ := seen
  let factor (place : Nat) (path : Option String) :=
    Boost.factorAmong built.graph files hits place (hit path)
  have count : hits.length = 5 := rfl
  have ofHub : ∀ place, [0, 1, 2, 3, 4].countP (Boost.areRelated built.graph hits place) = 2 →
      factor place (some "a.ts") = most := by
    intro place related
    simp [factor, Boost.factorAmong, hit, files, importers, imports, count, List.range,
      List.range.loop, related, most]
  have ofSpoke : factor 2 (some "b.ts") = 1.0 + 0.4 * (2 : Nat).toFloat32 := by
    simp [factor, Boost.factorAmong, hit, files, importers', imports', count, List.range,
      List.range.loop, second]
  have outside : factor 3 (some "x:y") = 1.0 := rfl
  have all := perm.map Prod.fst
  rw [sorted, List.zipIdx_map_fst, indexed] at all
  refine ⟨built, ran, all.trans (.of_eq ?_)⟩
  calc _ = [raised none 1.0, raised (some "a.ts") (factor 1 (some "a.ts")),
        raised (some "b.ts") (factor 2 (some "b.ts")), raised (some "x:y") (factor 3 (some "x:y")),
        raised (some "a.ts") (factor 4 (some "a.ts"))] := rfl
    _ = _ := by rw [ofHub 1 first, ofSpoke, outside, ofHub 4 third]

end CodeAtlas
