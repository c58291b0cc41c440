import CodeAtlas.Proofs.Graph.Draft
import Mathlib.Data.List.Basic

namespace CodeAtlas

namespace SnapshotSlot

/-- Slots at the same place, whatever is kept there. -/
inductive SamePlace : SnapshotSlot → SnapshotSlot → Prop
  | unset : SamePlace .unset .unset
  | blocked : SamePlace .blocked .blocked
  | file (content other : Option String) : SamePlace (.file content) (.file other)

/-- What is written does not depend on what was there. -/
theorem SamePlace.write {first second : SnapshotSlot} (same : SamePlace first second)
    (text : String) : first.write text = second.write text := by
  cases same <;> rfl

end SnapshotSlot

namespace Draft

/-- The flag is seen before the first file for which it is set. -/
theorem takeAll_of_cancelled (project : Project) {cancelled : Nat → Bool} (i : Nat)
    {files : List String} {number : Nat} (inside : number < files.length)
    (stops : cancelled (i + number) = true) (draft : Draft) :
    takeAll project cancelled i files draft = none := by
  induction files generalizing i number draft with
  | nil => cases inside
  | cons file files ih =>
    unfold takeAll
    cases now : cancelled i with
    | true => rfl
    | false =>
      rw [if_neg Bool.false_ne_true]
      cases number with
      | zero =>
        rw [Nat.add_zero, now] at stops
        cases stops
      | succ number =>
        rw [Nat.add_succ, ← Nat.succ_add] at stops
        exact ih (i + 1) (Nat.lt_of_succ_lt_succ inside) stops _

theorem take_congr {project other : Project} {path : String} (read : other.read path = project.read path)
    (outline : other.outline = project.outline) (draft : Draft) :
    draft.take other path = draft.take project path := by
  unfold take addSource
  rw [read, outline]

end Draft

/-- A build depends on nothing but what it reads of its files. -/
theorem Graph.build_congr {project other : Project} {files : List String}
    (read : ∀ path ∈ files.map Path.normalize, other.read path = project.read path)
    (outline : other.outline = project.outline) : build other files = build project files := by
  have drafts : draft other files = draft project files :=
    List.foldl_ext _ _ _ fun draft file listed =>
      draft.take_congr (read _ (List.mem_map_of_mem listed)) outline
  unfold build
  rw [drafts]

namespace Builder

theorem build_of_cancelled (builder : Builder) (project : Project) {cancelled : Nat → Bool}
    {files : List String} {number : Nat} (inside : number < files.length)
    (stops : cancelled number = true) :
    builder.build project cancelled files = (.error .cancelled, builder) := by
  rw [← Nat.zero_add number] at stops
  unfold build Graph.buildUntil?
  rw [Draft.takeAll_of_cancelled project 0 inside stops]
  rfl

/-- A build is cancelled if the flag is set when one of its files comes up, and then nothing has
changed. Otherwise it is the same build as that of a new builder which nobody cancels, whatever this
one had before, and its graph and its text are what is kept. -/
theorem build_atomic (builder : Builder) (project : Project) (cancelled : Nat → Bool)
    (files : List String) :
    let result := builder.build project cancelled files
    (result.1 = .error .cancelled ↔ ∃ number < files.length, cancelled number = true) ∧
      (result.1 = .error .cancelled → result.2 = builder) ∧
      ∀ built, result.1 = .ok built →
        result.2.graph = some built.graph ∧
        (built.snapshotWritten, result.2.snapshot) = builder.snapshot.write built.graph.save ∧
        ∀ (place : SnapshotSlot) (other : Project), place.SamePlace builder.snapshot →
          other.outline = project.outline →
          (∀ path ∈ files.map Path.normalize, other.read path = project.read path) →
            (new place).build other (fun _ => false) files = result := by
  intro result
  by_cases stopped : ∃ number < files.length, cancelled number = true
  · obtain ⟨number, inside, stops⟩ := stopped
    have nothing : result = (.error .cancelled, builder) :=
      builder.build_of_cancelled project inside stops
    rw [nothing]
    exact ⟨iff_of_true rfl ⟨number, inside, stops⟩, fun _ => rfl, nofun⟩
  · have goes : ∀ number < files.length, cancelled number = false := by
      simpa using stopped
    have whole : result = _ := builder.build_eq_of_not_cancelled project goes
    rw [whole]
    refine ⟨iff_of_false nofun stopped, nofun, ?_⟩
    intro built ran
    obtain rfl := Except.ok.inj ran
    refine ⟨rfl, rfl, fun place other same outline read => ?_⟩
    rw [build_eq_of_not_cancelled (new place) other fun _ _ => rfl, Graph.build_congr read outline]
    dsimp only [new]
    rw [same.write]

/-- A file is listed twice, one is missing, one is empty and one cannot be read. The flag is set when
the last of them is read: too late for this list, but not for a longer one. -/
example :
    let project : Project :=
      ⟨fun path => if path = "a.ts" then .text "." else if path = "b.ts" then .text ""
        else if path = "c.ts" then .unreadable "broken" else .missing, fun _ _ => .error .unsupported⟩
    let files := ["a.ts", "b.ts", "./a.ts", "d.ts", "c.ts"]
    let before : Builder := ⟨some .empty, .file (some "before")⟩
    (before.build project (5 ≤ ·) (files ++ ["a.ts"])) = (.error .cancelled, before) ∧
      ((before.build project (5 ≤ ·) files).2.graph.map (·.nodes.map (·.id))) = some ["file:a.ts"] := by
  decide +kernel

end Builder

end CodeAtlas
