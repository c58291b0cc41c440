import CodeAtlas.Proofs.Path.Spelling
import Mathlib.Logic.Relation

namespace CodeAtlas.Path

variable {s t : Char} {front back other : List Char}

/-- Which separator it is and what follows it makes no difference, if what follows leads the same
way from every folder. -/
theorem normalizeChars_append (first : isSeparator s = true) (second : isSeparator t = true)
    (alike : ∀ absolute parts,
      (splitAt isSeparator (Text.trimBack back)).foldl (push absolute) parts =
        (splitAt isSeparator (Text.trimBack other)).foldl (push absolute) parts)
    (front : List Char) :
    normalizeChars (front ++ s :: back) = normalizeChars (front ++ t :: other) := by
  have rooted : isRooted (front ++ s :: back) = isRooted (front ++ t :: other) := by
    rw [isRooted_append first, isRooted_append second]
  rw [normalizeChars_eq, normalizeChars_eq, kept_append first, kept_append second, rooted, alike]

/-- Segments that lead nowhere. -/
inductive Detour : List Char → Prop
  | nothing : Detour []
  | point : Detour ['.']
  | back {name : List Char} {s : Char} : IsName name → isSeparator s = true →
      Detour (name ++ s :: ['.', '.'])

/-- A path with another separator in one place, or with a detour after a separator. -/
inductive Respelled : List Char → List Char → Prop
  | turned (front back : List Char) : Respelled (front ++ '/' :: back) (front ++ '\\' :: back)
  | inserted {s t : Char} {detour : List Char} (front back : List Char) : isSeparator s = true →
      isSeparator t = true → Detour detour →
      Respelled (front ++ s :: back) (front ++ s :: (detour ++ t :: back))
  | appended {s : Char} {detour : List Char} (front : List Char) : isSeparator s = true →
      Detour detour → Respelled (front ++ [s]) (front ++ s :: detour)

theorem Detour.foldl_push {detour : List Char} (isDetour : Detour detour) (absolute : Bool)
    (parts : List (List Char)) :
    (splitAt isSeparator detour).foldl (push absolute) parts = parts := by
  cases isDetour with
  | nothing => rfl
  | point => rfl
  | @back name s isName separates =>
    have alone : splitAt isSeparator name = [name] := by
      rw [splitAt_eq_splitOnP, List.splitOnP_eq_singleton isName.whole]
    rw [splitAt_append separates, alone]
    change push absolute (push absolute parts name) ['.', '.'] = parts
    rw [push_name isName, push_points isName]

theorem Detour.trimBack {detour : List Char} (isDetour : Detour detour) :
    Text.trimBack detour = detour := by
  cases isDetour with
  | nothing => rfl
  | point => rfl
  | back _ separates => exact Text.trimBack_append_cons (isBlank_of_isSeparator separates) _ _

theorem Respelled.normalizeChars_eq {path respelled : List Char} (step : Respelled path respelled) :
    normalizeChars path = normalizeChars respelled := by
  cases step with
  | turned => exact normalizeChars_append rfl rfl (fun _ _ => rfl) _
  | @inserted s t detour front back first second isDetour =>
    refine normalizeChars_append first first (fun absolute parts => ?_) front
    rw [Text.trimBack_append_cons (isBlank_of_isSeparator second), splitAt_append second,
      List.foldl_append, isDetour.foldl_push]
  | @appended s detour front separates isDetour =>
    refine normalizeChars_append separates separates (fun absolute parts => ?_) front
    rw [isDetour.trimBack, isDetour.foldl_push]
    rfl

theorem normalizeChars_eq_of_eqvGen {path respelled : List Char}
    (steps : Relation.EqvGen Respelled path respelled) :
    normalizeChars path = normalizeChars respelled := by
  induction steps with
  | rel path respelled step => exact step.normalizeChars_eq
  | refl path => rfl
  | symm path respelled _ ih => exact ih.symm
  | trans path between respelled _ _ first second => exact first.trans second

theorem isRooted_iff (path : List Char) : isRooted path = true ↔
    (Text.trim path).head? = some '/' ∨ (Text.trim path).head? = some '\\' := by
  rw [isRooted]
  cases (Text.trim path).head? with
  | none => simp
  | some c => simp [isSeparator]

/-- The one spelling of a path is canonical. It is absolute if the path begins with a separator
after its blanks, and the path itself if that is canonical and has no blanks at its ends. Paths that
differ in their separators and in detours only have the same one. -/
theorem normalize_canonical (path : String) :
    Canonical (normalize path) ∧
      (isAbsolute (normalize path) = true ↔
        (Text.trim path.toList).head? = some '/' ∨ (Text.trim path.toList).head? = some '\\') ∧
      (normalize path = path ↔ Canonical path ∧ Text.trim path.toList = path.toList) ∧
      ∀ other : String, Relation.EqvGen Respelled path.toList other.toList →
        normalize other = normalize path := by
  refine ⟨canonical_normalize path, ?_, normalize_eq_self_iff, fun other steps => ?_⟩
  · rw [isAbsolute_normalize, isRooted_iff]
  · rw [normalize, normalize, normalizeChars_eq_of_eqvGen steps]

/-- Two back slashes, a point, and a way into a folder and back again. -/
theorem normalize_canonical_detours :
    Relation.EqvGen Respelled "src/a.ts".toList "src\\\\./lib x /../a.ts".toList ∧
      normalize "src\\\\./lib x /../a.ts" = "src/a.ts" := by
  have isName : IsName "lib x ".toList := by decide
  have steps : Relation.EqvGen Respelled "src/a.ts".toList "src\\\\./lib x /../a.ts".toList := by
    refine .trans _ "src\\a.ts".toList _ (.rel _ _ (.turned "src".toList "a.ts".toList)) ?_
    refine .trans _ "src\\\\a.ts".toList _
      (.rel _ _ (.inserted "src".toList "a.ts".toList rfl rfl .nothing)) ?_
    refine .trans _ "src\\\\./a.ts".toList _
      (.rel _ _ (.inserted "src\\".toList "a.ts".toList rfl rfl .point)) ?_
    exact .rel _ _ (.inserted "src\\\\.".toList "a.ts".toList rfl rfl (.back isName rfl))
  exact ⟨steps, ((normalize_canonical "src/a.ts").2.2.2 _ steps).trans (by decide +kernel)⟩

end CodeAtlas.Path
