import CodeAtlas.Proofs.Path.Segments
import CodeAtlas.Proofs.Text.Trim

namespace CodeAtlas.Path

variable {absolute : Bool} {parts : List (List Char)}

/-- Whether a path begins at the root. -/
def isAbsolute (path : String) : Bool := path.toList.head? == some '/'

/-- The segments of a path, without what stands before the slash of an absolute one. The root and
the empty path have none. -/
def segments (path : String) : List (List Char) :=
  let inside := if isAbsolute path then path.toList.tail else path.toList
  if inside = [] then [] else inside.splitOn '/'

/-- Whether a path makes no detours: no segment is empty or a point, and two points come first, if
at all. -/
structure Canonical (path : String) : Prop where
  no_backslash : '\\' ∉ path.toList
  not_idle : ∀ segment ∈ segments path, segment ≠ [] ∧ segment ≠ ['.']
  points_first : (segments path).Pairwise fun before after =>
    after = ['.', '.'] → before = ['.', '.']
  not_above_root : isAbsolute path = true → ['.', '.'] ∉ segments path

/-- A path of these parts. -/
def spell (absolute : Bool) (parts : List (List Char)) : List Char :=
  if absolute then '/' :: join parts else join parts

theorem exists_join_cons (part : List Char) (others : List (List Char)) :
    ∃ rest, join (part :: others) = part ++ rest := by
  cases others with
  | nil => exact ⟨[], by simp [join]⟩
  | cons next others => exact ⟨'/' :: join (next :: others), by simp [join]⟩

theorem mem_join_iff {c : Char} : c ∈ join parts ↔
    (c = '/' ∧ 2 ≤ parts.length) ∨ ∃ part ∈ parts, c ∈ part := by
  induction parts with
  | nil => simp [join]
  | cons part others ih =>
    cases others with
    | nil => simp [join]
    | cons next others =>
      have long : 2 ≤ (part :: next :: others).length := Nat.le_add_left ..
      rw [join] at ih ⊢
      rw [List.intercalate_cons_cons, List.mem_append, List.mem_append, List.mem_singleton, ih,
        List.exists_mem_cons_iff _ part, and_iff_left long]
      tauto

theorem join_eq_nil_iff (nonempty : ∀ part ∈ parts, part ≠ []) : join parts = [] ↔ parts = [] := by
  cases parts with
  | nil => exact ⟨fun _ => rfl, fun _ => rfl⟩
  | cons part others =>
    obtain ⟨rest, same⟩ := exists_join_cons part others
    simp [same, nonempty part List.mem_cons_self]

/-- A path of parts that are not empty does not begin with a separator, unless it is put there. -/
theorem exists_join_eq_cons
    (whole : ∀ part ∈ parts, part ≠ [] ∧ ∀ c ∈ part, isSeparator c = false)
    (nonempty : parts ≠ []) : ∃ c rest, join parts = c :: rest ∧ isSeparator c = false := by
  obtain ⟨part, others, rfl⟩ := List.exists_cons_of_ne_nil nonempty
  obtain ⟨long, plain⟩ := whole part List.mem_cons_self
  obtain ⟨c, chars, rfl⟩ := List.exists_cons_of_ne_nil long
  obtain ⟨rest, same⟩ := exists_join_cons (c :: chars) others
  exact ⟨c, chars ++ rest, same, plain c List.mem_cons_self⟩

theorem head?_join (whole : ∀ part ∈ parts, part ≠ [] ∧ ∀ c ∈ part, isSeparator c = false) :
    (join parts).head?.any isSeparator = false := by
  by_cases none : parts = []
  · rw [none]
    rfl
  · obtain ⟨c, rest, same, plain⟩ := exists_join_eq_cons whole none
    rw [same]
    exact plain

theorem isAbsolute_of_not_isSeparator {c : Char} {rest : List Char}
    (plain : isSeparator c = false) : isAbsolute (String.ofList (c :: rest)) = false := by
  have other : (c == '/') = false := (Bool.or_eq_false_iff.mp plain).1
  rw [isAbsolute, String.toList_ofList]
  exact other

theorem isAbsolute_spell (whole : ∀ part ∈ parts, part ≠ [] ∧ ∀ c ∈ part, isSeparator c = false) :
    isAbsolute (String.ofList (spell absolute parts)) = absolute := by
  cases absolute with
  | true =>
    rw [isAbsolute, String.toList_ofList]
    rfl
  | false =>
    rw [spell, if_neg Bool.false_ne_true]
    by_cases none : parts = []
    · rw [none]
      rfl
    · obtain ⟨c, rest, same, plain⟩ := exists_join_eq_cons whole none
      rw [same]
      exact isAbsolute_of_not_isSeparator plain

theorem segments_spell (whole : ∀ part ∈ parts, part ≠ [] ∧ ∀ c ∈ part, isSeparator c = false) :
    segments (String.ofList (spell absolute parts)) = parts := by
  have inside : (if absolute then (spell absolute parts).tail else spell absolute parts) =
      join parts := by
    cases absolute <;> rfl
  rw [segments, isAbsolute_spell whole, String.toList_ofList, inside]
  by_cases none : parts = []
  · rw [none]
    rfl
  · have slash : ∀ part ∈ parts, ∀ c ∈ part, (c == '/') = false := fun part member c listed =>
      (Bool.or_eq_false_iff.mp ((whole part member).2 c listed)).1
    rw [if_neg fun nothing => none ((join_eq_nil_iff fun part member =>
      (whole part member).1).mp nothing), List.splitOn_eq_splitOnP, ← splitAt_eq_splitOnP]
    exact splitAt_join rfl none slash

theorem plain_of_mem_segments {path : String} {segment : List Char}
    (member : segment ∈ segments path) : ∀ c ∈ segment, (c == '/') = false := by
  unfold segments at member
  generalize (if isAbsolute path then path.toList.tail else path.toList) = inside at member
  change segment ∈ if inside = [] then [] else inside.splitOn '/' at member
  split at member
  · exact absurd member List.not_mem_nil
  · rw [List.splitOn_eq_splitOnP, ← splitAt_eq_splitOnP] at member
    exact whole_of_mem_splitAt member

/-- A path consists of its segments. -/
theorem spell_segments (path : String) : spell (isAbsolute path) (segments path) = path.toList := by
  have together (inside : List Char) :
      join (if inside = [] then [] else inside.splitOn '/') = inside := by
    by_cases nothing : inside = []
    · rw [if_pos nothing, nothing]
      rfl
    · rw [if_neg nothing]
      exact List.intercalate_splitOn '/'
  unfold spell segments
  cases rooted : isAbsolute path with
  | false => exact together _
  | true =>
    obtain ⟨rest, same⟩ := List.head?_eq_some_iff.mp (beq_iff_eq.mp rooted)
    rw [same]
    exact congrArg ('/' :: ·) (together rest)

namespace IsStack

theorem whole_reverse (stack : IsStack absolute parts) :
    ∀ part ∈ parts.reverse, part ≠ [] ∧ ∀ c ∈ part, isSeparator c = false := fun _ member =>
  have ⟨nonempty, _, plain⟩ := stack.part (List.mem_reverse.mp member)
  ⟨nonempty, plain⟩

theorem points_last (stack : IsStack absolute parts) :
    parts.Pairwise fun after before => after = ['.', '.'] → before = ['.', '.'] := by
  induction stack with
  | start count =>
    exact List.pairwise_of_forall_mem_list fun _ _ _ listed _ => List.eq_of_mem_replicate listed
  | name isName _ ih =>
    exact List.pairwise_cons.mpr ⟨fun _ _ points => absurd points isName.ne_points, ih⟩

theorem points_not_mem (stack : IsStack true parts) : ['.', '.'] ∉ parts := by
  intro member
  induction stack with
  | start count none =>
    rw [none rfl] at member
    exact List.not_mem_nil member
  | name isName _ ih =>
    rcases List.mem_cons.mp member with points | member
    · exact isName.ne_points points.symm
    · exact ih member

theorem canonical (stack : IsStack absolute parts) :
    Canonical (String.ofList (spell absolute parts.reverse)) := by
  have listed : segments (String.ofList (spell absolute parts.reverse)) = parts.reverse :=
    segments_spell stack.whole_reverse
  constructor
  · rw [String.toList_ofList]
    intro member
    have inside : '\\' ∈ join parts.reverse := by
      cases absolute with
      | true => exact (List.mem_cons.mp member).resolve_left (by decide)
      | false => exact member
    rcases mem_join_iff.mp inside with ⟨slash, _⟩ | ⟨part, isPart, within⟩
    · exact absurd slash (by decide)
    · exact absurd ((stack.whole_reverse part isPart).2 _ within) (by decide)
  · rw [listed]
    intro part member
    obtain ⟨nonempty, other, _⟩ := stack.part (List.mem_reverse.mp member)
    exact ⟨nonempty, other⟩
  · rw [listed, List.pairwise_reverse]
    exact stack.points_last
  · rw [listed, isAbsolute_spell stack.whole_reverse, List.mem_reverse]
    rintro rfl
    exact stack.points_not_mem

/-- Parts without separators of which none is idle, after two points of which there are nothing but
two points. -/
theorem of_points_last (whole : ∀ part ∈ parts, ∀ c ∈ part, isSeparator c = false)
    (notIdle : ∀ part ∈ parts, part ≠ [] ∧ part ≠ ['.'])
    (points : parts.Pairwise fun after before => after = ['.', '.'] → before = ['.', '.'])
    (inside : absolute = true → ['.', '.'] ∉ parts) : IsStack absolute parts := by
  induction parts with
  | nil => exact empty
  | cons part others ih =>
    obtain ⟨before, later⟩ := List.pairwise_cons.mp points
    rcases idle_or_points_or_name (whole part List.mem_cons_self) with idle | rfl | isName
    · obtain ⟨nonempty, other⟩ := notIdle part List.mem_cons_self
      exact absurd idle (not_or.mpr ⟨nonempty, other⟩)
    · have all : others = List.replicate others.length ['.', '.'] :=
        List.eq_replicate_iff.mpr ⟨rfl, fun other member => before other member rfl⟩
      rw [all, ← List.replicate_succ]
      exact .start _ fun rooted => absurd List.mem_cons_self (inside rooted)
    · exact .name isName (ih (List.forall_mem_cons.mp whole).2 (List.forall_mem_cons.mp notIdle).2
        later fun rooted member => inside rooted (List.mem_cons_of_mem _ member))

end IsStack

theorem Canonical.isStack {path : String} (canonical : Canonical path) :
    IsStack (isAbsolute path) (segments path).reverse := by
  have inside : ∀ segment ∈ segments path, ∀ c ∈ segment, c ∈ path.toList := by
    intro segment member c within
    have joined : c ∈ join (segments path) := mem_join_iff.mpr (.inr ⟨segment, member, within⟩)
    rw [← spell_segments path, spell]
    split
    · exact List.mem_cons_of_mem _ joined
    · exact joined
  refine IsStack.of_points_last (fun segment member c within => ?_) ?_ ?_ ?_
  · rw [isSeparator, plain_of_mem_segments (List.mem_reverse.mp member) c within, Bool.false_or,
      beq_eq_false_iff_ne]
    rintro rfl
    exact canonical.no_backslash (inside segment (List.mem_reverse.mp member) _ within)
  · exact fun segment member => canonical.not_idle segment (List.mem_reverse.mp member)
  · exact List.pairwise_reverse.mpr canonical.points_first
  · exact fun rooted member => canonical.not_above_root rooted (List.mem_reverse.mp member)

end CodeAtlas.Path
