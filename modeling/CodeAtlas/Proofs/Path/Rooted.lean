import CodeAtlas.Proofs.Path.Imports

namespace CodeAtlas.Path

variable {importer specifier : String} {folder parts : List (List Char)} {stem : List Char}

/-- The path of these parts from the root on. -/
def fromRoot (parts : List (List Char)) : String := "/" ++ ofParts parts

theorem fromRoot_eq (parts : List (List Char)) :
    fromRoot parts = String.ofList (spell true parts) := by
  rw [← String.toList_inj]
  simp [fromRoot, ofParts, spell]

/-- An absolute path has an empty part in front. -/
theorem fromRoot_eq_ofParts (nonempty : parts ≠ []) : fromRoot parts = ofParts ([] :: parts) := by
  obtain ⟨first, others, rfl⟩ := List.exists_cons_of_ne_nil nonempty
  rw [fromRoot_eq, ofParts, join, List.intercalate_cons_cons]
  rfl

theorem isAbsolute_fromRoot_append (parts : List (List Char)) (suffix : String) :
    isAbsolute (fromRoot parts ++ suffix) = true := by
  simp [isAbsolute, fromRoot]

theorem fromRoot_append_ending (stem : List Char) (ending : String) :
    fromRoot (parts ++ [stem ++ ending.toList]) = fromRoot (parts ++ [stem]) ++ ending := by
  rw [fromRoot, ofParts_append_ending, fromRoot, String.append_assoc]

theorem eq_fromRoot (rooted : isAbsolute importer = true) :
    importer = fromRoot (segments importer) := by
  rw [fromRoot_eq, ← rooted, spell_segments, String.ofList_toList]

theorem directory_rooted (canonical : Canonical importer) (rooted : isAbsolute importer = true) :
    directory importer = ofParts ([] :: folderOf importer) := by
  have same := eq_fromRoot rooted
  by_cases none : segments importer = []
  · rw [folderOf, none]
    rw [none] at same
    rw [same]
    decide +kernel
  · have whole : ∀ part ∈ [] :: segments importer, ∀ c ∈ part, isSeparator c = false := by
      rw [List.forall_mem_cons]
      exact ⟨fun c member => absurd member List.not_mem_nil, fun part member =>
        (canonical.isStack.part (List.mem_reverse.mpr member)).2.2⟩
    rw [fromRoot_eq_ofParts none] at same
    conv_lhs => rw [same, directory_ofParts whole, List.dropLast_cons_of_ne_nil none]
    rfl

/-- Two points at the root lead nowhere. -/
theorem normalize_below_root (stack : IsStack true folder.reverse) (nonempty : folder ≠ [])
    (specifier : String) : normalize (fromRoot folder ++ "/" ++ specifier) =
      fromRoot ((importSegments specifier).foldl (push true) folder.reverse).reverse := by
  have whole : ∀ part ∈ folder, ∀ c ∈ part, isSeparator c = false := fun part member =>
    (stack.part (List.mem_reverse.mpr member)).2.2
  have characters : (fromRoot folder ++ "/" ++ specifier).toList =
      ('/' :: join folder) ++ '/' :: specifier.toList := by
    simp [fromRoot, ofParts]
  have clear : Text.trimFront ('/' :: join folder) = '/' :: join folder := rfl
  have rooted : isRooted (('/' :: join folder) ++ '/' :: specifier.toList) = true := by
    rw [isRooted_append rfl, clear]
    rfl
  have split : splitAt isSeparator ('/' :: join folder) = [] :: folder := by
    rw [← List.nil_append ('/' :: join folder), splitAt_append rfl, splitAt_join rfl nonempty whole]
    rfl
  have again := stack.foldl_reverse
  rw [List.reverse_reverse] at again
  rw [normalize, characters, normalizeChars_eq, kept_append rfl, rooted, clear, split,
    List.foldl_cons, push_idle (.inl rfl), again, fromRoot_eq]
  rfl

theorem importBase_below_root (canonical : Canonical importer)
    (rooted : isAbsolute importer = true) (below : folderOf importer ≠ []) (specifier : String) :
    importBase importer specifier = fromRoot
      ((importSegments specifier).foldl (push true) (folderOf importer).reverse).reverse := by
  have stack := canonical.isStack_folderOf
  rw [rooted] at stack
  have named : fromRoot (folderOf importer) ≠ "" := by simp [fromRoot]
  rw [importBase, directory_rooted canonical rooted, ← fromRoot_eq_ofParts below]
  simp only [beq_iff_eq, named, if_false]
  exact normalize_below_root stack below specifier

/-- An import from the root is taken for one from a relative path without folders. -/
theorem importBase_at_root (canonical : Canonical importer) (rooted : isAbsolute importer = true)
    (top : folderOf importer = []) (relative : specifier.toList.head? = some '.') :
    importBase importer specifier =
      ofParts ((importSegments specifier).foldl (push false) []).reverse := by
  rw [importBase, directory_rooted canonical rooted, top]
  exact normalize_relative relative

/-- An import that is taken for one from a relative path without folders tries two absolute paths
at most. -/
theorem absolute_at_root {segments : List (List Char)}
    (whole : ∀ segment ∈ segments, ∀ c ∈ segment, isSeparator c = false) {suffix : String}
    (member : suffix ∈ importSuffixes)
    (rooted : isAbsolute (ofParts (segments.foldl (push false) []).reverse ++ suffix) = true) :
    ofParts (segments.foldl (push false) []).reverse ++ suffix = "/index.ts" ∨
      ofParts (segments.foldl (push false) []).reverse ++ suffix = "/index.tsx" := by
  have stack : IsStack false (segments.foldl (push false) []) := IsStack.empty.foldl_push whole
  by_cases nothing : segments.foldl (push false) [] = []
  · rw [nothing] at rooted ⊢
    exact (tried_at_root suffix member).2 rooted
  · rw [isAbsolute_append stack.whole_reverse (mt List.reverse_eq_nil_iff.mp nothing)] at rooted
    cases rooted

/-- The way to a file in the same folder. -/
def wayBeside (stem : List Char) : String := "./" ++ String.ofList stem

theorem head?_wayBeside (stem : List Char) : (wayBeside stem).toList.head? = some '.' := by
  simp [wayBeside]

theorem foldl_push_wayBeside (isName : IsName stem) (trimmed : Text.trimBack stem = stem)
    (absolute : Bool) (folder : List (List Char)) :
    ((importSegments (wayBeside stem)).foldl (push absolute) folder.reverse).reverse =
      folder ++ [stem] := by
  have characters : (wayBeside stem).toList = ['.'] ++ '/' :: stem := by simp [wayBeside]
  have alone : splitAt isSeparator stem = [stem] := by
    rw [splitAt_eq_splitOnP, List.splitOnP_eq_singleton isName.whole]
  have way : importSegments (wayBeside stem) = [['.'], stem] := by
    rw [importSegments, characters, Text.trimBack_append_cons (by decide), trimmed,
      splitAt_append rfl, alone]
    rfl
  rw [way, List.foldl_cons, push_idle (.inr rfl), List.foldl_cons, push_name isName]
  simp

theorem exists_suffix_of_resolveImport? {known : String → Bool} {target : String}
    (found : resolveImport? importer specifier known = some target) :
    specifier.startsWith "." = true ∧
      ∃ suffix ∈ importSuffixes, importBase importer specifier ++ suffix = target := by
  rw [resolveImport?] at found
  split at found
  · next relative => exact ⟨relative, List.mem_map.mp (List.mem_of_find?_eq_some found)⟩
  · cases found

/-- From a file below the root, imports find absolute paths only, and every file in the same folder
that no other one comes before. From a file at the root, they find no file beside it, and no
absolute path but the index files of the root. -/
theorem resolveImport?_rooted (canonical : Canonical importer)
    (rooted : isAbsolute importer = true) (known : String → Bool) :
    (∀ specifier target, resolveImport? importer specifier known = some target →
      (isAbsolute target = true ↔
        folderOf importer ≠ [] ∨ target = "/index.ts" ∨ target = "/index.tsx")) ∧
    ∀ stem, IsName stem → Text.trimBack stem = stem →
      ∀ ending ∈ [".ts", ".tsx", ".js", ".jsx"],
        known (fromRoot (folderOf importer ++ [stem ++ ending.toList])) = true →
        (∀ suffix ∈ importSuffixes.takeWhile (· != ending),
          known (fromRoot (folderOf importer ++ [stem]) ++ suffix) = false) →
        (resolveImport? importer (wayBeside stem) known =
            some (fromRoot (folderOf importer ++ [stem ++ ending.toList])) ↔
          folderOf importer ≠ []) := by
  refine ⟨fun specifier target found => ?_, fun stem isName trimmed ending script listed first => ?_⟩
  · obtain ⟨relative, suffix, member, rfl⟩ := exists_suffix_of_resolveImport? found
    by_cases top : folderOf importer = []
    · rw [importBase_at_root canonical rooted top (startsWith_point_iff.mp relative)]
      constructor
      · exact fun absolute => .inr (absolute_at_root (fun _ => whole_of_mem_splitAt) member absolute)
      · rintro (below | index | index)
        · exact absurd top below
        · rw [index]
          decide
        · rw [index]
          decide
    · rw [importBase_below_root canonical rooted top, isAbsolute_fromRoot_append]
      exact iff_of_true rfl (.inl top)
  · have relative : (wayBeside stem).startsWith "." = true :=
      startsWith_point_iff.mpr (head?_wayBeside stem)
    rw [fromRoot_append_ending] at listed ⊢
    constructor
    · intro found top
      obtain ⟨-, suffix, -, same⟩ := exists_suffix_of_resolveImport? found
      have beside := foldl_push_wayBeside isName trimmed false []
      rw [List.reverse_nil, List.nil_append] at beside
      -- What is tried is a relative path, and the file has an absolute one.
      have other : isAbsolute (ofParts [stem] ++ suffix) = false :=
        isAbsolute_append (by simpa using ⟨isName.ne_nil, isName.whole⟩) (List.cons_ne_nil _ _) suffix
      rw [importBase_at_root canonical rooted top (head?_wayBeside stem), beside] at same
      rw [same, isAbsolute_fromRoot_append] at other
      cases other
    · intro below
      rw [resolveImport?, if_pos relative, importBase_below_root canonical rooted below,
        foldl_push_wayBeside isName trimmed]
      exact find?_suffix (List.mem_append_left ["/index.ts", "/index.tsx"] script) listed first

/-- From two folders below the root: to a file beside it with a blank in its name, and by more points
than there are folders. -/
theorem resolveImport?_rooted_deep :
    let known (path : String) := path == "/src/lib/b c.jsx" || path == "/c.js"
    (normalize "/src/lib/a.ts" = "/src/lib/a.ts" ∧ folderOf "/src/lib/a.ts" ≠ []) ∧
      resolveImport? "/src/lib/a.ts" "./b c" known = some "/src/lib/b c.jsx" ∧
      resolveImport? "/src/lib/a.ts" "../../../c" known = some "/c.js" ∧
      isAbsolute "/c.js" = true := by
  intro known
  have one : normalize "/src/lib/a.ts" = "/src/lib/a.ts" := by decide +kernel
  have canonical : Canonical "/src/lib/a.ts" := (normalize_eq_self_iff.mp one).1
  have rooted : isAbsolute "/src/lib/a.ts" = true := by decide +kernel
  have folder : folderOf "/src/lib/a.ts" = ["src".toList, "lib".toList] := by decide +kernel
  have below : folderOf "/src/lib/a.ts" ≠ [] := by
    rw [folder]
    exact List.cons_ne_nil _ _
  have isName : IsName "b c".toList := by decide
  have file : fromRoot (["src".toList, "lib".toList] ++ ["b c".toList ++ ".jsx".toList]) =
      "/src/lib/b c.jsx" := by decide +kernel
  have way : wayBeside "b c".toList = "./b c" := by decide +kernel
  have beside : resolveImport? "/src/lib/a.ts" (wayBeside "b c".toList) known =
      some (fromRoot (folderOf "/src/lib/a.ts" ++ ["b c".toList ++ ".jsx".toList])) :=
    ((resolveImport?_rooted canonical rooted known).2 _ isName (by decide) ".jsx" (by decide)
      (by rw [folder]; decide +kernel) (by rw [folder]; decide +kernel)).mpr below
  rw [folder, file, way] at beside
  have above : resolveImport? "/src/lib/a.ts" "../../../c" known = some "/c.js" := by decide +kernel
  exact ⟨⟨one, below⟩, beside, above,
    ((resolveImport?_rooted canonical rooted known).1 _ _ above).mpr (.inl below)⟩

/-- The file beside a file at the root is known, but the import does not find it. It finds the file
of that name with a relative path, if that is known. -/
theorem resolveImport?_loses_root :
    (normalize "/a.ts" = "/a.ts" ∧ isAbsolute "/a.ts" = true ∧ folderOf "/a.ts" = []) ∧
    resolveImport? "/a.ts" "./b" (· == "/b.ts") = none ∧
    resolveImport? "/a.ts" "./b" (fun path => path == "b.ts" || path == "/b.ts") = some "b.ts" ∧
    isAbsolute "b.ts" = false := by
  decide +kernel

end CodeAtlas.Path
