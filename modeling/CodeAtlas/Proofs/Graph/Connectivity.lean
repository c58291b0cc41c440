import Mathlib.Algebra.BigOperators.Group.Finset.Basic
import Mathlib.Data.List.Induction
import CodeAtlas.Graph.Query
import CodeAtlas.Proofs.Graph.Calls
import CodeAtlas.Proofs.Graph.Imports
import CodeAtlas.Proofs.Graph.Ownership

namespace CodeAtlas

namespace Graph

section Distinct

variable {α : Type} [BEq α]

theorem distinct_append_singleton (items : List α) (item : α) :
    distinct (items ++ [item]) =
      if (distinct items).contains item then distinct items else distinct items ++ [item] := by
  rw [distinct, List.foldl_append]
  rfl

variable [LawfulBEq α] {items : List α}

theorem mem_distinct {item : α} : item ∈ distinct items ↔ item ∈ items := by
  induction items using List.reverseRecOn with
  | nil => exact Iff.rfl
  | append_singleton items last ih =>
    rw [distinct_append_singleton, List.mem_append, List.mem_singleton, ← ih]
    split
    · next again =>
      refine (or_iff_left_of_imp ?_).symm
      rintro rfl
      exact List.contains_iff_mem.mp again
    · rw [List.mem_append, List.mem_singleton]

theorem nodup_distinct (items : List α) : (distinct items).Nodup := by
  induction items using List.reverseRecOn with
  | nil => exact List.nodup_nil
  | append_singleton items last ih =>
    rw [distinct_append_singleton]
    split
    · exact ih
    · next new =>
      rw [← List.concat_eq_append]
      exact ih.concat (new ∘ List.contains_iff_mem.mpr)

theorem distinct_of_nodup (different : items.Nodup) : distinct items = items := by
  induction items using List.reverseRecOn with
  | nil => rfl
  | append_singleton items last ih =>
    rw [← List.concat_eq_append, List.nodup_concat] at different
    rw [distinct_append_singleton, ih different.2,
      if_neg (different.1 ∘ List.contains_iff_mem.mp)]

end Distinct

/-- Counting the items for each of several keys counts every item once. -/
theorem sum_countP {α : Type} {items : List α} {keys : List String} (different : keys.Nodup)
    {keyOf : α → String} (covered : ∀ item ∈ items, keyOf item ∈ keys) :
    (keys.map fun key => items.countP (keyOf · == key)).sum = items.length := by
  have counts : ∀ key, items.countP (keyOf · == key) =
      Multiset.count key (items.map keyOf : Multiset String) := by
    intro key
    rw [Multiset.coe_count, List.count, List.countP_map]
    rfl
  simp only [counts]
  rw [← List.sum_toFinset _ different, Multiset.sum_count_eq_card, Multiset.coe_card,
    List.length_map]
  intro key member
  obtain ⟨item, listed, rfl⟩ := List.mem_map.mp (Multiset.mem_coe.mp member)
  exact List.mem_toFinset.mpr (covered item listed)

variable {graph : Graph} {type : EdgeType}

/-- Of relations that differ in one of their ends, no two that share the other end are one. -/
theorem length_distinct_ends {edges : List GraphEdge} (different : edges.Nodup)
    {near far : GraphEdge → String}
    (told : ∀ first ∈ edges, ∀ second ∈ edges,
      near first = near second → far first = far second → first = second) (id : String) :
    (distinct ((edges.filter (near · == id)).map far)).length = edges.countP (near · == id) := by
  rw [distinct_of_nodup, List.length_map, List.countP_eq_length_filter]
  refine List.Nodup.map_on ?_ (different.filter _)
  intro first inFirst second inSecond same
  obtain ⟨inFirst, atFirst⟩ := List.mem_filter.mp inFirst
  obtain ⟨inSecond, atSecond⟩ := List.mem_filter.mp inSecond
  exact told first inFirst second inSecond
    ((beq_iff_eq.mp atFirst).trans (beq_iff_eq.mp atSecond).symm) same

theorem eq_of_ends {first second : GraphEdge} (inFirst : first ∈ graph.edgesOf type)
    (inSecond : second ∈ graph.edgesOf type) (source : first.source = second.source)
    (target : first.target = second.target) : first = second := by
  obtain ⟨_, rfl⟩ := mem_edgesOf.mp inFirst
  obtain ⟨_, same⟩ := mem_edgesOf.mp inSecond
  cases first
  cases second
  cases source
  cases target
  cases same
  rfl

theorem length_targets (different : (graph.edgesOf type).Nodup) (id : String) :
    (graph.targets id type).length = (graph.edgesOf type).countP (·.source == id) := by
  rw [targets, ← List.filter_filter]
  exact length_distinct_ends different (fun first inFirst second inSecond source target =>
    eq_of_ends inFirst inSecond source target) id

theorem length_sources (different : (graph.edgesOf type).Nodup) (id : String) :
    (graph.sources id type).length = (graph.edgesOf type).countP (·.target == id) := by
  rw [sources, ← List.filter_filter]
  exact length_distinct_ends different (fun first inFirst second inSecond target source =>
    eq_of_ends inFirst inSecond source target) id

/-- The path of the file that a node belongs to. -/
def pathOf? (graph : Graph) (id : String) : Option String := (graph.node? id).bind (·.path)

theorem endPaths?_eq_some_iff {edge : GraphEdge} {source target : String} :
    graph.endPaths? edge = some (source, target) ↔
      graph.pathOf? edge.source = some source ∧ graph.pathOf? edge.target = some target := by
  unfold endPaths? pathOf?
  cases graph.node? edge.source with
  | none => simp
  | some first =>
    cases graph.node? edge.target with
    | none => simp
    | some second => simp [Option.bind_eq_some_iff]

/-- Counting pairs of paths is counting relations, if the paths tell what is counted. -/
theorem countP_pathPairs {p : String × String → Bool} {q : GraphEdge → Bool}
    (told : ∀ edge ∈ graph.edgesOf type, ∃ ends, graph.endPaths? edge = some ends ∧ p ends = q edge) :
    (graph.pathPairs type).countP p = (graph.edgesOf type).countP q := by
  rw [pathPairs, ← edgesOf, List.countP_filterMap]
  refine List.countP_congr fun edge member => ?_
  obtain ⟨ends, found, same⟩ := told edge member
  rw [found, ← same]
  rfl

/-- Imports join files, no two of them the same, and a call stays within a file. -/
structure LinksFiles (graph : Graph) (paths : List String) : Prop where
  distinct : (graph.edgesOf .imports).Nodup
  imports : ∀ edge ∈ graph.edgesOf .imports, ∃ source ∈ paths, ∃ target ∈ paths,
    edge = ⟨GraphNode.fileId source, GraphNode.fileId target, .imports⟩ ∧
      graph.endPaths? edge = some (source, target)
  calls : ∀ edge ∈ graph.edgesOf .calls, ∃ path ∈ paths, graph.endPaths? edge = some (path, path)

theorem fileId_beq (first second : String) :
    (GraphNode.fileId first == GraphNode.fileId second) = (first == second) := by
  rw [Bool.eq_iff_iff, beq_iff_eq, beq_iff_eq]
  exact ⟨GraphNode.fileId_injective, congrArg _⟩

namespace LinksFiles

variable {paths : List String} (links : graph.LinksFiles paths) (path : String)

include links

theorem imports_connectivityOf :
    (graph.connectivityOf path).imports = (graph.importsOf (GraphNode.fileId path)).length := by
  rw [importsOf, length_targets links.distinct]
  refine countP_pathPairs fun edge member => ?_
  obtain ⟨source, _, target, _, rfl, ends⟩ := links.imports edge member
  exact ⟨_, ends, (fileId_beq source path).symm⟩

theorem importedBy_connectivityOf :
    (graph.connectivityOf path).importedBy = (graph.importersOf (GraphNode.fileId path)).length := by
  rw [importersOf, length_sources links.distinct]
  refine countP_pathPairs fun edge member => ?_
  obtain ⟨source, _, target, _, rfl, ends⟩ := links.imports edge member
  exact ⟨_, ends, (fileId_beq target path).symm⟩

theorem calls_connectivityOf :
    (graph.connectivityOf path).calls =
      (graph.edgesOf .calls).countP fun edge => graph.pathOf? edge.source == some path := by
  refine countP_pathPairs fun edge member => ?_
  obtain ⟨own, _, ends⟩ := links.calls edge member
  exact ⟨_, ends, by rw [(endPaths?_eq_some_iff.mp ends).1]; rfl⟩

theorem calledBy_connectivityOf :
    (graph.connectivityOf path).calledBy = (graph.connectivityOf path).calls := by
  rw [links.calls_connectivityOf]
  refine countP_pathPairs fun edge member => ?_
  obtain ⟨own, _, ends⟩ := links.calls edge member
  exact ⟨_, ends, by rw [(endPaths?_eq_some_iff.mp ends).1]; rfl⟩

omit path in
theorem length_pathPairs : (graph.pathPairs .imports).length = (graph.edgesOf .imports).length := by
  have all : (graph.pathPairs .imports).countP (fun _ => true) =
      (graph.edgesOf .imports).countP fun _ => true := by
    refine countP_pathPairs fun edge member => ?_
    obtain ⟨_, _, _, _, _, ends⟩ := links.imports edge member
    exact ⟨_, ends, rfl⟩
  simpa using all

end LinksFiles

/-- The files that an import or a call touches. -/
def touched (graph : Graph) : List String := graph.fileConnectivity.map (·.1)

theorem touched_eq (graph : Graph) :
    graph.touched = distinct ((graph.pathPairs .imports ++ graph.pathPairs .calls).flatMap
      fun ends => [ends.1, ends.2]) := by
  rw [touched, fileConnectivity, List.map_map]
  exact List.map_id _

theorem nodup_touched (graph : Graph) : graph.touched.Nodup := by
  rw [touched_eq]
  exact nodup_distinct _

theorem mem_touched {path : String} :
    path ∈ graph.touched ↔
      ∃ ends ∈ graph.pathPairs .imports ++ graph.pathPairs .calls, path = ends.1 ∨ path = ends.2 := by
  rw [touched_eq, mem_distinct, List.mem_flatMap]
  simp only [List.mem_cons, List.not_mem_nil, or_false]

theorem fileConnectivity_eq (graph : Graph) :
    graph.fileConnectivity = graph.touched.map fun path => (path, graph.connectivityOf path) := by
  rw [touched_eq]
  rfl

/-- A file that nothing touches has no connectivity. -/
theorem lookup_fileConnectivity (graph : Graph) (path : String) :
    (graph.fileConnectivity.lookup path).getD ⟨0, 0, 0, 0⟩ = graph.connectivityOf path := by
  rw [fileConnectivity_eq]
  by_cases member : path ∈ graph.touched
  · rw [List.lookup_graph _ member]
    rfl
  · have absent : (graph.touched.map fun path => (path, graph.connectivityOf path)).lookup path =
        none := by
      rw [List.lookup_eq_none_iff]
      intro entry listed
      obtain ⟨other, touched, rfl⟩ := List.mem_map.mp listed
      rw [bne_iff_ne]
      rintro rfl
      exact member touched
    have untouched : ∀ ends ∈ graph.pathPairs .imports ++ graph.pathPairs .calls,
        ¬(ends.1 == path) = true ∧ ¬(ends.2 == path) = true := by
      intro ends listed
      rw [beq_iff_eq, beq_iff_eq]
      exact ⟨fun same => member (mem_touched.mpr ⟨ends, listed, .inl same.symm⟩),
        fun same => member (mem_touched.mpr ⟨ends, listed, .inr same.symm⟩)⟩
    obtain ⟨imports, calls⟩ := List.forall_mem_append.mp untouched
    rw [absent, connectivityOf, Connectivity.count,
      List.countP_eq_zero.mpr fun ends listed => (imports ends listed).1,
      List.countP_eq_zero.mpr fun ends listed => (imports ends listed).2,
      List.countP_eq_zero.mpr fun ends listed => (calls ends listed).1,
      List.countP_eq_zero.mpr fun ends listed => (calls ends listed).2]
    rfl

namespace LinksFiles

variable {paths keys : List String}

theorem sum_imports (links : graph.LinksFiles paths) (different : keys.Nodup)
    (covered : ∀ ends ∈ graph.pathPairs .imports, ends.1 ∈ keys) :
    (keys.map (graph.connectivityOf · |>.imports)).sum = (graph.edgesOf .imports).length :=
  (sum_countP different covered).trans links.length_pathPairs

theorem sum_importedBy (links : graph.LinksFiles paths) (different : keys.Nodup)
    (covered : ∀ ends ∈ graph.pathPairs .imports, ends.2 ∈ keys) :
    (keys.map (graph.connectivityOf · |>.importedBy)).sum = (graph.edgesOf .imports).length :=
  (sum_countP different covered).trans links.length_pathPairs

theorem mem_of_mem_pathPairs (links : graph.LinksFiles paths) {ends : String × String}
    (listed : ends ∈ graph.pathPairs .imports ++ graph.pathPairs .calls) :
    ends.1 ∈ paths ∧ ends.2 ∈ paths := by
  rcases List.mem_append.mp listed with imported | called
  · obtain ⟨edge, member, found⟩ := List.mem_filterMap.mp imported
    obtain ⟨source, inSource, target, inTarget, _, ends⟩ := links.imports edge member
    obtain rfl := Option.some.inj (found.symm.trans ends)
    exact ⟨inSource, inTarget⟩
  · obtain ⟨edge, member, found⟩ := List.mem_filterMap.mp called
    obtain ⟨path, inPath, ends⟩ := links.calls edge member
    obtain rfl := Option.some.inj (found.symm.trans ends)
    exact ⟨inPath, inPath⟩

end LinksFiles

theorem linksFiles_build (project : Project) {files : List String}
    (plain : ∀ path ∈ files.map Path.normalize, ':' ∉ path.toList) :
    (build project files).1.LinksFiles ((project.indexed files).map (·.1)) := by
  have accounts := accounts_link project files
  have plainFiles := project.plain_indexed plain
  refine ⟨accounts.nodup_imports, fun edge member => ?_, fun edge member => ?_⟩
  · obtain ⟨source, inSource, target, inTarget, same, atSource, atTarget⟩ :=
      accounts.files_of_import member
    refine ⟨source, inSource, target, inTarget, same, endPaths?_eq_some_iff.mpr ⟨?_, ?_⟩⟩
    · exact Option.bind_eq_some_iff.mpr ⟨_, atSource, rfl⟩
    · exact Option.bind_eq_some_iff.mpr ⟨_, atTarget, rfl⟩
  · obtain ⟨path, taken, source, target, atSource, atTarget, calls, _, inFile⟩ :=
      accounts.nodes_of_call plainFiles member
    refine ⟨path, taken, endPaths?_eq_some_iff.mpr ⟨?_, ?_⟩⟩
    · refine Option.bind_eq_some_iff.mpr ⟨source, atSource, ?_⟩
      obtain rfl | ⟨_, own⟩ := calls
      · rfl
      · exact own
    · exact Option.bind_eq_some_iff.mpr ⟨target, atTarget, inFile⟩

end Graph

/-- The counts of a file in a built graph are those of its neighbours, as no two imports relate the
same files and calls stay in their file. Over all files, or over those that are touched at all, they
add up to the imports of the graph. -/
theorem Builder.build_connectivity (builder : Builder) (project : Project) {files : List String}
    (plain : ∀ path ∈ files.map Path.normalize, ':' ∉ path.toList) {cancelled : Nat → Bool}
    (goes : ∀ number < files.length, cancelled number = false) :
    ∃ built, (builder.build project cancelled files).1 = .ok built ∧
      let countsOf (path : String) : Graph.Connectivity :=
        (built.graph.fileConnectivity.lookup path).getD ⟨0, 0, 0, 0⟩
      let imports := (built.graph.edgesOf .imports).length
      (∀ path,
        (countsOf path).imports = (built.graph.importsOf (GraphNode.fileId path)).length ∧
        (countsOf path).importedBy = (built.graph.importersOf (GraphNode.fileId path)).length ∧
        (countsOf path).calls = ((built.graph.edgesOf .calls).countP fun edge =>
          built.graph.pathOf? edge.source == some path) ∧
        (countsOf path).calledBy = (countsOf path).calls) ∧
      ((project.indexed files).map fun file => (countsOf file.1).imports).sum = imports ∧
      ((project.indexed files).map fun file => (countsOf file.1).importedBy).sum = imports ∧
      (built.graph.fileConnectivity.map (·.2.imports)).sum = imports ∧
      (built.graph.fileConnectivity.map (·.2.importedBy)).sum = imports := by
  obtain ⟨written, ran⟩ := builder.build_of_not_cancelled project goes
  refine ⟨_, ran, ?_⟩
  have links := Graph.linksFiles_build project plain
  have different := project.nodup_indexed files
  have inFiles : ∀ ends ∈ (Graph.build project files).1.pathPairs .imports, _ :=
    fun ends member => links.mem_of_mem_pathPairs (List.mem_append_left _ member)
  have touches : ∀ ends ∈ (Graph.build project files).1.pathPairs .imports,
      ends.1 ∈ (Graph.build project files).1.touched ∧
        ends.2 ∈ (Graph.build project files).1.touched := by
    intro ends member
    have listed := List.mem_append_left ((Graph.build project files).1.pathPairs .calls) member
    exact ⟨Graph.mem_touched.mpr ⟨ends, listed, .inl rfl⟩,
      Graph.mem_touched.mpr ⟨ends, listed, .inr rfl⟩⟩
  dsimp only
  simp only [Graph.lookup_fileConnectivity]
  refine ⟨fun path => ⟨links.imports_connectivityOf path, links.importedBy_connectivityOf path,
    links.calls_connectivityOf path, links.calledBy_connectivityOf path⟩, ?_, ?_, ?_, ?_⟩
  · have total := links.sum_imports different fun ends member => (inFiles ends member).1
    rwa [List.map_map] at total
  · have total := links.sum_importedBy different fun ends member => (inFiles ends member).2
    rwa [List.map_map] at total
  · have total := links.sum_imports (Graph.nodup_touched _) fun ends member => (touches ends member).1
    rwa [Graph.fileConnectivity_eq, List.map_map]
  · have total := links.sum_importedBy (Graph.nodup_touched _)
      fun ends member => (touches ends member).2
    rwa [Graph.fileConnectivity_eq, List.map_map]

/-- Two files import each other, one of them twice and itself too, and a file that calls itself twice
from one function is imported by nobody. -/
theorem Builder.build_connectivity_cycle :
    let first : Outline :=
      ⟨[], [⟨"b", "./b", false⟩, ⟨"c", "./b", true⟩, ⟨"*", "./a", false⟩], []⟩
    let second : Outline := ⟨[], [⟨"a", "./a", true⟩], []⟩
    let third : Outline :=
      ⟨[⟨"run", .function, 1, 3, true⟩], [], [⟨some "run", "run", 2⟩, ⟨some "run", "run", 3⟩,
        ⟨none, "run", 4⟩, ⟨none, "gone", 5⟩]⟩
    let project : Project :=
      ⟨fun _ => .text ".", fun path _ => .ok (if path = "a.ts" then first
        else if path = "b.ts" then second else third)⟩
    let files := ["a.ts", "./b.ts", "c.ts"]
    ∃ built, ((new .unset).build project (fun _ => false) files).1 = .ok built ∧
      built.graph.fileConnectivity.lookup "a.ts" = some ⟨2, 2, 0, 0⟩ ∧
      (built.graph.importsOf "file:a.ts").length = 2 ∧
      (built.graph.importersOf "file:a.ts").length = 2 ∧
      ((built.graph.edgesOf .calls).countP fun edge =>
        built.graph.pathOf? edge.source == some "c.ts") = 3 ∧
      (built.graph.fileConnectivity.map (·.2.importedBy)).sum = 3 := by
  intro first second third project files
  have paths : files.map Path.normalize = ["a.ts", "b.ts", "c.ts"] := by decide +kernel
  have plain : ∀ path ∈ files.map Path.normalize, ':' ∉ path.toList := by
    rw [paths]
    decide
  let never : Nat → Bool := fun _ => false
  have goes : ∀ number < files.length, never number = false := fun _ _ => rfl
  obtain ⟨built, ran, counts, _, _, _, total⟩ :=
    build_connectivity (new .unset) project plain goes
  have seen : ((new .unset).build project never files).1.toOption.map (fun built =>
      (built.graph.fileConnectivity, (built.graph.edgesOf .imports).length)) =
      some ([("a.ts", ⟨2, 2, 0, 0⟩), ("b.ts", ⟨1, 1, 0, 0⟩), ("c.ts", ⟨0, 0, 3, 3⟩)], 3) := by
    decide +kernel
  rw [ran] at seen
  obtain ⟨connectivity, imports⟩ := Prod.mk.inj (Option.some.inj seen)
  have ofFirst := counts "a.ts"
  have ofThird := counts "c.ts"
  dsimp only at connectivity imports total ofFirst ofThird
  rw [connectivity] at ofFirst ofThird
  refine ⟨built, ran, ?_, ofFirst.1.symm, ofFirst.2.1.symm, ofThird.2.2.1.symm, ?_⟩
  · rw [connectivity]
    rfl
  · rw [total, imports]

end CodeAtlas
