import CodeAtlas.Path.Import
import CodeAtlas.Proofs.Path.Spelling
import Mathlib.Data.List.TakeWhile

namespace CodeAtlas.Path

variable {folder target parts : List (List Char)} {importer specifier : String}

/-- From a folder along segments to a folder, each given by names from the root on. An empty segment
and a point stay in a folder, two points leave it, and a name goes into the one of that name. -/
inductive Leads : List (List Char) → List (List Char) → List (List Char) → Prop
  | here (folder : List (List Char)) : Leads folder [] folder
  | stay {folder target segments : List (List Char)} {segment : List Char} :
      segment = [] ∨ segment = ['.'] → Leads folder segments target →
      Leads folder (segment :: segments) target
  | up {folder target segments : List (List Char)} {name : List Char} :
      IsName name → Leads folder segments target →
      Leads (folder ++ [name]) (['.', '.'] :: segments) target
  | enter {folder target segments : List (List Char)} {name : List Char} :
      IsName name → Leads (folder ++ [name]) segments target →
      Leads folder (name :: segments) target

/-- The folder that a file is in. -/
def folderOf (path : String) : List (List Char) := (segments path).dropLast

/-- The segments of an import. Blanks at its end are nothing to it. -/
def importSegments (specifier : String) : List (List Char) :=
  splitAt isSeparator (Text.trimBack specifier.toList)

theorem Leads.foldl_push {segments : List (List Char)} (leads : Leads folder segments target) :
    segments.foldl (push false) folder.reverse = target.reverse := by
  induction leads with
  | here folder => rfl
  | stay idle _ ih => rw [List.foldl_cons, push_idle idle, ih]
  | up isName _ ih =>
    rw [List.foldl_cons, List.reverse_append, List.reverse_singleton, List.singleton_append,
      push_points isName, ih]
  | enter isName _ ih =>
    rw [List.foldl_cons, push_name isName, ← ih, List.reverse_append]
    rfl

/-- What leads up before the root leads up before it ever after. -/
theorem points_mem_foldl_push {segments : List (List Char)} (member : ['.', '.'] ∈ parts) :
    ['.', '.'] ∈ segments.foldl (push false) parts := by
  induction segments generalizing parts with
  | nil => exact member
  | cons segment segments ih =>
    refine ih ?_
    revert member
    fun_cases push false parts segment <;> grind

theorem IsStack.leads {segments : List (List Char)} (stack : IsStack false parts)
    (whole : ∀ segment ∈ segments, ∀ c ∈ segment, isSeparator c = false)
    (inside : ['.', '.'] ∉ segments.foldl (Path.push false) parts) :
    Leads parts.reverse segments (segments.foldl (Path.push false) parts).reverse := by
  induction segments generalizing parts with
  | nil => exact .here _
  | cons segment segments ih =>
    obtain ⟨plain, rest⟩ := List.forall_mem_cons.mp whole
    have later := ih (stack.push plain) rest inside
    rw [List.foldl_cons] at inside ⊢
    rcases idle_or_points_or_name plain with idle | rfl | isName
    · rw [push_idle idle] at later ⊢
      exact .stay idle later
    · cases stack with
      | start count _ =>
        rw [push_points_replicate] at inside
        exact absurd (points_mem_foldl_push List.mem_cons_self) inside
      | name isName below =>
        rw [Path.push_points isName] at later ⊢
        rw [List.reverse_cons]
        exact .up isName later
    · rw [push_name isName] at later ⊢
      rw [List.reverse_cons] at later
      exact .enter isName later

/-- The relative path of these parts. -/
def ofParts (parts : List (List Char)) : String := String.ofList (join parts)

theorem directory_ofParts (whole : ∀ part ∈ parts, ∀ c ∈ part, isSeparator c = false) :
    directory (ofParts parts) = ofParts parts.dropLast := by
  rcases parts.eq_nil_or_concat with rfl | ⟨folders, name, rfl⟩
  · rfl
  · have plain : ∀ c ∈ name.reverse, (c != '/') = true := fun c member =>
      bne_iff_ne.mpr fun slash => by
        have other := whole name (by simp) c (List.mem_reverse.mp member)
        rw [slash] at other
        cases other
    rw [List.concat_eq_append, List.dropLast_concat, directory, ofParts, String.toList_ofList]
    by_cases alone : folders = []
    · rw [alone, List.nil_append, join, List.intercalate_singleton,
        List.dropWhile_eq_nil_iff.mpr plain]
      rfl
    · rw [join_snoc alone, List.reverse_append, List.reverse_cons, List.append_assoc,
        List.dropWhile_append_of_pos plain]
      simp [ofParts]

theorem ofParts_eq_empty_iff (nonempty : ∀ part ∈ parts, part ≠ []) :
    ofParts parts = "" ↔ parts = [] := by
  rw [← join_eq_nil_iff nonempty, ← String.toList_inj, ofParts, String.toList_ofList]
  rfl

theorem normalize_relative (relative : specifier.toList.head? = some '.') :
    normalize specifier =
      ofParts ((importSegments specifier).foldl (push false) []).reverse := by
  obtain ⟨rest, same⟩ := List.head?_eq_some_iff.mp relative
  have trimmed : Text.trim specifier.toList = Text.trimBack specifier.toList := by
    rw [same]
    rfl
  have rooted : isRooted specifier.toList = false := by
    rw [isRooted, trimmed, same, ← List.nil_append ('.' :: rest),
      Text.trimBack_append_cons (by decide)]
    rfl
  rw [normalize, normalizeChars_eq, kept, rooted, trimmed]
  rfl

theorem normalize_below (stack : IsStack false parts.reverse) (nonempty : parts ≠ [])
    (clear : Text.trimFront (join parts) = join parts) (specifier : String) :
    normalize (ofParts parts ++ "/" ++ specifier) =
      ofParts ((importSegments specifier).foldl (push false) parts.reverse).reverse := by
  have whole : ∀ part ∈ parts, part ≠ [] ∧ ∀ c ∈ part, isSeparator c = false := by
    simpa using stack.whole_reverse
  have characters : (ofParts parts ++ "/" ++ specifier).toList =
      join parts ++ '/' :: specifier.toList := by
    simp [ofParts]
  have rooted : isRooted (join parts ++ '/' :: specifier.toList) = false := by
    rw [isRooted_append rfl, clear]
    obtain ⟨c, rest, same, plain⟩ := exists_join_eq_cons whole nonempty
    rw [same]
    exact plain
  have again := stack.foldl_reverse
  rw [List.reverse_reverse] at again
  rw [normalize, characters, normalizeChars_eq, kept_append rfl, rooted, clear,
    splitAt_join rfl nonempty fun part member => (whole part member).2, again]
  rfl

/-- Where an import leads from the folder of the importing file. Blanks at the end of an import are
nothing to it. -/
theorem importBase_ofParts (stack : IsStack false parts.reverse)
    (clear : Text.trimFront (join parts) = join parts)
    (relative : specifier.toList.head? = some '.') :
    importBase (ofParts parts) specifier =
      ofParts ((importSegments specifier).foldl (push false) parts.dropLast.reverse).reverse := by
  have folders : IsStack false parts.dropLast.reverse := by
    rw [← List.tail_reverse]
    exact stack.tail
  have empty : ofParts parts.dropLast = "" ↔ parts.dropLast = [] :=
    ofParts_eq_empty_iff fun part member => (folders.part (List.mem_reverse.mpr member)).1
  rw [importBase, directory_ofParts fun part member =>
    (stack.part (List.mem_reverse.mpr member)).2.2]
  by_cases top : parts.dropLast = []
  · simp only [empty.mpr top, beq_self_eq_true, if_true]
    rw [normalize_relative relative, top]
    rfl
  · have front : Text.trimFront (join parts.dropLast) = join parts.dropLast := by
      have name : parts ≠ [] := fun none => top (by rw [none]; rfl)
      rw [← List.dropLast_concat_getLast name, join_snoc top,
        Text.trimFront_append_cons (by decide)] at clear
      exact List.append_cancel_right clear
    simp only [beq_iff_eq, mt empty.mp top, if_false]
    exact normalize_below folders top front specifier

theorem Canonical.eq_ofParts (inside : isAbsolute importer = false) :
    importer = ofParts (segments importer) := by
  have whole := spell_segments importer
  rw [inside] at whole
  rw [← String.toList_inj, ofParts, String.toList_ofList]
  exact whole.symm

theorem Canonical.isStack_folderOf (canonical : Canonical importer) :
    IsStack (isAbsolute importer) (folderOf importer).reverse := by
  rw [folderOf, ← List.tail_reverse]
  exact canonical.isStack.tail

theorem importBase_eq (canonical : Canonical importer) (inside : isAbsolute importer = false)
    (clear : Text.trimFront importer.toList = importer.toList)
    (relative : specifier.toList.head? = some '.') :
    importBase importer specifier = ofParts
      ((importSegments specifier).foldl (push false) (folderOf importer).reverse).reverse := by
  have stack := canonical.isStack
  rw [inside] at stack
  have same := Canonical.eq_ofParts inside
  rw [same, ofParts, String.toList_ofList] at clear
  conv_lhs => rw [same]
  exact importBase_ofParts stack clear relative

theorem Leads.importBase_eq (leads : Leads (folderOf importer) (importSegments specifier) target)
    (canonical : Canonical importer) (inside : isAbsolute importer = false)
    (clear : Text.trimFront importer.toList = importer.toList)
    (relative : specifier.toList.head? = some '.') :
    importBase importer specifier = ofParts target := by
  rw [Path.importBase_eq canonical inside clear relative, leads.foldl_push, List.reverse_reverse]

theorem isAbsolute_append (whole : ∀ part ∈ parts, part ≠ [] ∧ ∀ c ∈ part, isSeparator c = false)
    (nonempty : parts ≠ []) (suffix : String) : isAbsolute (ofParts parts ++ suffix) = false := by
  obtain ⟨c, rest, same, plain⟩ := exists_join_eq_cons whole nonempty
  rw [← String.ofList_toList (s := ofParts parts ++ suffix), String.toList_append, ofParts,
    String.toList_ofList, same]
  exact isAbsolute_of_not_isSeparator plain

/-- An import from a relative path leads to the root, or to a relative path. -/
theorem importBase_root_or_relative (canonical : Canonical importer)
    (inside : isAbsolute importer = false)
    (clear : Text.trimFront importer.toList = importer.toList)
    (relative : specifier.toList.head? = some '.') :
    importBase importer specifier = ofParts [] ∧
        Leads (folderOf importer) (importSegments specifier) [] ∨
      ∀ suffix, isAbsolute (importBase importer specifier ++ suffix) = false := by
  have whole : ∀ segment ∈ importSegments specifier, ∀ c ∈ segment, isSeparator c = false :=
    fun _ => whole_of_mem_splitAt
  have folders := canonical.isStack_folderOf
  rw [inside] at folders
  rw [importBase_eq canonical inside clear relative]
  by_cases root : (importSegments specifier).foldl (push false) (folderOf importer).reverse = []
  · have leads := folders.leads whole (by rw [root]; exact List.not_mem_nil)
    rw [List.reverse_reverse, root] at leads
    rw [root]
    exact .inl ⟨rfl, leads⟩
  · have stack := folders.foldl_push whole
    exact .inr (isAbsolute_append stack.whole_reverse (mt List.reverse_eq_nil_iff.mp root))

end CodeAtlas.Path
