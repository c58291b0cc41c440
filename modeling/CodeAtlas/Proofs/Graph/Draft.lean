import CodeAtlas.Graph.Builder
import CodeAtlas.Proofs.Graph.Files

namespace CodeAtlas

namespace Draft

/-- The draft of a file alone. -/
def ofPath (project : Project) (path : String) : Draft := empty.take project path

/-- The draft of different files. -/
def ofPaths (project : Project) (paths : List String) : Draft where
  graph := .ofFiles (paths.flatMap (ofPath project · |>.outlines))
  seen := paths.reverse
  outlines := paths.flatMap (ofPath project · |>.outlines)
  skipped := paths.flatMap (ofPath project · |>.skipped)
  diagnostics := paths.flatMap (ofPath project · |>.diagnostics)

theorem take_of_mem (project : Project) {draft : Draft} {path : String}
    (seen : path ∈ draft.seen) : draft.take project path = draft := by
  rw [take, if_pos (List.contains_iff_mem.mpr seen)]

theorem take_of_not_mem (project : Project) {draft : Draft} {path : String}
    (unseen : path ∉ draft.seen) :
    draft.take project path =
      { graph := (ofPath project path).outlines.foldl
          (fun graph file => graph.addFile file.1 file.2) draft.graph
        seen := path :: draft.seen
        outlines := draft.outlines ++ (ofPath project path).outlines
        skipped := draft.skipped ++ (ofPath project path).skipped
        diagnostics := draft.diagnostics ++ (ofPath project path).diagnostics } := by
  unfold ofPath take
  rw [if_neg (by simpa using unseen), if_neg (by simp [empty])]
  cases (project.read path).source path with
  | error reason => simp [empty]
  | ok source =>
    dsimp only [addSource]
    cases project.outline path source <;> simp [empty]

theorem nodup_seen_take (draft : Draft) (project : Project) (path : String)
    (distinct : draft.seen.Nodup) : (draft.take project path).seen.Nodup := by
  by_cases seen : path ∈ draft.seen
  · rwa [take_of_mem project seen]
  · rw [take_of_not_mem project seen]
    exact List.nodup_cons.mpr ⟨seen, distinct⟩

theorem take_ofPaths (project : Project) (paths : List String) (path : String) :
    (ofPaths project paths.eraseDups).take project path =
      ofPaths project (paths ++ [path]).eraseDups := by
  rw [List.eraseDups_append]
  by_cases member : path ∈ paths
  · have again : ([path].removeAll paths).eraseDups = [] := by simp [List.removeAll, member]
    rw [again, List.append_nil, take_of_mem project (by simpa [ofPaths] using member)]
  · have new : ([path].removeAll paths).eraseDups = [path] := by
      simp [List.removeAll, member, List.eraseDups_cons]
    rw [new, take_of_not_mem project (by simpa [ofPaths] using member)]
    simp [ofPaths, Graph.ofFiles]

/-- At most one file is taken up for each path. -/
theorem paths_outlines_sublist (project : Project) (paths : List String) :
    ((ofPaths project paths).outlines.map (·.1)).Sublist paths := by
  have single : ∀ path, ((ofPath project path).outlines.map (·.1)).Sublist [path] := by
    intro path
    unfold ofPath take
    rw [if_neg (by simp [empty])]
    cases (project.read path).source path with
    | error reason => exact List.nil_sublist _
    | ok source =>
      dsimp only [addSource]
      cases project.outline path source <;> exact List.Sublist.refl _
  induction paths with
  | nil => exact List.Sublist.refl _
  | cons path paths ih =>
    rw [ofPaths, List.flatMap_cons, List.map_append]
    exact (single path).append ih

theorem takeAll_of_not_cancelled (project : Project) {cancelled : Nat → Bool} (i : Nat)
    {files : List String} (goes : ∀ number < files.length, cancelled (i + number) = false)
    (draft : Draft) :
    takeAll project cancelled i files draft =
      some (files.foldl (fun draft file => draft.take project (Path.normalize file)) draft) := by
  induction files generalizing i draft with
  | nil => rfl
  | cons file files ih =>
    have now : cancelled i = false := goes 0 (Nat.succ_pos _)
    rw [takeAll, now, if_neg Bool.false_ne_true, ih]
    · rfl
    · intro number inside
      rw [Nat.succ_add]
      exact goes (number + 1) (Nat.succ_lt_succ inside)

end Draft

/-- No path is looked at twice. -/
theorem Graph.nodup_seen_draft (project : Project) (files : List String) :
    (draft project files).seen.Nodup := by
  refine List.foldlRecOn (motive := fun (draft : Draft) => draft.seen.Nodup) files _
    List.nodup_nil ?_
  intro draft distinct file _
  exact draft.nodup_seen_take project _ distinct

theorem Graph.draft_eq (project : Project) (files : List String) :
    draft project files = .ofPaths project (files.map Path.normalize).eraseDups := by
  have looked : ∀ (files paths : List String),
      files.foldl (fun draft file => draft.take project (Path.normalize file))
        (.ofPaths project paths.eraseDups) =
      Draft.ofPaths project (paths ++ files.map Path.normalize).eraseDups := by
    intro files
    induction files with
    | nil => simp
    | cons file files ih =>
      intro paths
      rw [List.foldl_cons, Draft.take_ofPaths, ih, List.map_cons, List.append_assoc]
      rfl
  exact looked files []

theorem Graph.nodup_paths (files : List String) : (files.map Path.normalize).eraseDups.Nodup := by
  have distinct := nodup_seen_draft ⟨fun _ => .missing, fun _ _ => .ok .empty⟩ files
  rw [draft_eq] at distinct
  exact (List.reverse_perm _).nodup_iff.mp distinct

/-- A build that goes through keeps its graph and writes it to the snapshot, whatever there was. -/
theorem Builder.build_eq_of_not_cancelled (builder : Builder) (project : Project)
    {cancelled : Nat → Bool} {files : List String}
    (goes : ∀ number < files.length, cancelled number = false) :
    let built := Graph.build project files
    let kept := builder.snapshot.write built.1.save
    builder.build project cancelled files = (.ok ⟨built.1, built.2, kept.1⟩, ⟨some built.1, kept.2⟩) := by
  unfold build Graph.buildUntil?
  rw [Draft.takeAll_of_not_cancelled project 0 fun number inside => by
    rw [Nat.zero_add]
    exact goes number inside]
  rfl

theorem Builder.build_of_not_cancelled (builder : Builder) (project : Project)
    {cancelled : Nat → Bool} {files : List String} (goes : ∀ number < files.length, cancelled number = false) :
    ∃ written, (builder.build project cancelled files).1 =
      .ok ⟨(Graph.build project files).1, (Graph.build project files).2, written⟩ := by
  rw [builder.build_eq_of_not_cancelled project goes]
  exact ⟨_, rfl⟩

end CodeAtlas
