import CodeAtlas.Proofs.Path.Leads
import Mathlib.Data.List.Induction

namespace CodeAtlas.Path

variable {folder target parts : List (List Char)} {importer specifier : String}
  {known : String → Bool}

theorem startsWith_point_iff :
    specifier.startsWith "." = true ↔ specifier.toList.head? = some '.' := by
  rw [String.startsWith_string_iff, List.head?_eq_some_iff]
  exact ⟨fun ⟨rest, same⟩ => ⟨rest, same.symm⟩, fun ⟨rest, same⟩ => ⟨rest, same.symm⟩⟩

/-- The first known file is found if none before it is known. -/
theorem find?_suffix {suffixes : List String} {base ending : String} (listed : ending ∈ suffixes)
    (there : known (base ++ ending) = true)
    (first : ∀ suffix ∈ suffixes.takeWhile (· != ending), known (base ++ suffix) = false) :
    (suffixes.map (base ++ ·)).find? known = some (base ++ ending) := by
  induction suffixes with
  | nil => exact absurd listed List.not_mem_nil
  | cons suffix suffixes ih =>
    by_cases same : suffix = ending
    · rw [List.map_cons, same, List.find?_cons_of_pos there]
    · rw [List.takeWhile_cons, if_pos (bne_iff_ne.mpr same)] at first
      obtain ⟨unknown, later⟩ := List.forall_mem_cons.mp first
      rw [List.map_cons, List.find?_cons_of_neg (by simp [unknown])]
      exact ih ((List.mem_cons.mp listed).resolve_left (Ne.symm same)) later

theorem ofParts_snoc (nonempty : parts ≠ []) (name : String) :
    ofParts (parts ++ [name.toList]) = ofParts parts ++ ("/" ++ name) := by
  rw [← String.toList_inj]
  simp [ofParts, join_snoc nonempty]

theorem ofParts_append_ending (stem : List Char) (ending : String) :
    ofParts (parts ++ [stem ++ ending.toList]) = ofParts (parts ++ [stem]) ++ ending := by
  rw [← String.toList_inj]
  by_cases alone : parts = []
  · simp [ofParts, alone, join]
  · simp [ofParts, join_snoc alone]

/-- A name without blanks at its ends. -/
@[mk_iff]
structure IsPlainName (segment : List Char) : Prop extends IsName segment where
  trimmed : Text.trim segment = segment

instance (segment : List Char) : Decidable (IsPlainName segment) :=
  decidable_of_iff' _ (isPlainName_iff segment)

theorem IsStack.of_names {absolute : Bool} (names : ∀ name ∈ parts, IsName name) :
    IsStack absolute parts := by
  induction parts with
  | nil => exact empty
  | cons name parts ih =>
    obtain ⟨isName, others⟩ := List.forall_mem_cons.mp names
    exact .name isName (ih others)

theorem leads_into (names : ∀ name ∈ target, IsName name) :
    Leads folder target (folder ++ target) := by
  induction target generalizing folder with
  | nil =>
    rw [List.append_nil]
    exact .here folder
  | cons name target ih =>
    obtain ⟨isName, others⟩ := List.forall_mem_cons.mp names
    have rest : Leads (folder ++ [name]) target (folder ++ [name] ++ target) := ih others
    rw [List.append_assoc] at rest
    exact .enter isName rest

/-- As often up as there are folders, and then into others. -/
theorem leads_across (folders : ∀ name ∈ folder, IsName name)
    (names : ∀ name ∈ target, IsName name) :
    Leads folder (List.replicate folder.length ['.', '.'] ++ target) target := by
  induction folder using List.reverseRecOn with
  | nil => exact leads_into names
  | append_singleton folder name ih =>
    rw [List.length_append, List.length_singleton, List.replicate_succ]
    exact .up (folders name (by simp)) (ih fun other member => folders other (by simp [member]))

/-- The way from the folder of a file up to the root, and from there on along parts. -/
def wayAcross (importer parts : List (List Char)) : String :=
  ofParts (['.'] :: (List.replicate importer.dropLast.length ['.', '.'] ++ parts))

theorem wayAcross_parts {importer : List (List Char)} (names : ∀ name ∈ target, IsPlainName name)
    {part : List Char}
    (member : part ∈ ['.'] :: (List.replicate importer.dropLast.length ['.', '.'] ++ target)) :
    part ≠ [] ∧ Text.trim part = part ∧ ∀ c ∈ part, isSeparator c = false := by
  rcases List.mem_cons.mp member with rfl | member
  · exact ⟨List.cons_ne_nil _ _, rfl, by simp [isSeparator]⟩
  rcases List.mem_append.mp member with up | named
  · rw [List.eq_of_mem_replicate up]
    exact ⟨List.cons_ne_nil _ _, rfl, by simp [isSeparator]⟩
  · have plain := names part named
    exact ⟨plain.ne_nil, plain.trimmed, plain.whole⟩

theorem head?_wayAcross (importer target : List (List Char)) :
    (wayAcross importer target).toList.head? = some '.' := by
  obtain ⟨rest, same⟩ := exists_join_cons ['.']
    (List.replicate importer.dropLast.length ['.', '.'] ++ target)
  rw [wayAcross, ofParts, String.toList_ofList, same]
  rfl

theorem importBase_wayAcross {importer : List (List Char)}
    (here : ∀ name ∈ importer, IsPlainName name) (there : ∀ name ∈ target, IsPlainName name) :
    importBase (ofParts importer) (wayAcross importer target) = ofParts target := by
  have stack : IsStack false importer.reverse := .of_names fun name member =>
    (here name (List.mem_reverse.mp member)).toIsName
  have clear : Text.trimFront (join importer) = join importer := trimFront_join fun name member =>
    ⟨(here name member).ne_nil, (here name member).trimmed⟩
  have way : importSegments (wayAcross importer target) =
      ['.'] :: (List.replicate importer.dropLast.length ['.', '.'] ++ target) := by
    rw [wayAcross, ofParts, importSegments, String.toList_ofList, trimBack_join fun part member =>
      ⟨(wayAcross_parts there member).1, (wayAcross_parts there member).2.1⟩]
    exact splitAt_join rfl (List.cons_ne_nil _ _) fun part member =>
      (wayAcross_parts there member).2.2
  have leads : Leads importer.dropLast
      (['.'] :: (List.replicate importer.dropLast.length ['.', '.'] ++ target)) target :=
    .stay (.inr rfl) (leads_across
      (fun name member => (here name (List.dropLast_subset _ member)).toIsName)
      fun name member => (there name member).toIsName)
  rw [importBase_ofParts stack clear (head?_wayAcross ..), way, leads.foldl_push,
    List.reverse_reverse]

/-- Every file can be imported from every other one: the way up to the root and down again, with the
name of the file without its ending, finds the file if it is known and no file is that is tried
before it. -/
theorem resolveImport?_wayAcross {importer folders : List (List Char)} {stem : List Char}
    {ending : String} (here : ∀ name ∈ importer, IsPlainName name)
    (there : ∀ name ∈ folders ++ [stem], IsPlainName name)
    (script : ending ∈ [".ts", ".tsx", ".js", ".jsx"])
    (listed : known (ofParts (folders ++ [stem ++ ending.toList])) = true)
    (first : ∀ suffix ∈ importSuffixes.takeWhile (· != ending),
      known (ofParts (folders ++ [stem]) ++ suffix) = false) :
    resolveImport? (ofParts importer) (wayAcross importer (folders ++ [stem])) known =
      some (ofParts (folders ++ [stem ++ ending.toList])) := by
  have relative : (wayAcross importer (folders ++ [stem])).startsWith "." = true :=
    startsWith_point_iff.mpr (head?_wayAcross ..)
  have suffix : ending ∈ importSuffixes := List.mem_append_left ["/index.ts", "/index.tsx"] script
  rw [ofParts_append_ending] at listed ⊢
  rw [resolveImport?, if_pos relative, importBase_wayAcross here there]
  exact find?_suffix suffix listed first

/-- A file with blanks, points and a colon in its name, imported from two folders further down. Of
the two files with that name the one that is tried first is found. -/
theorem resolveImport?_wayAcross_up :
    let importer := ["src".toList, "a b".toList, "a.ts".toList]
    let known (path : String) := path == "lib/..x: y.tsx" || path == "lib/..x: y.js"
    (∀ name ∈ importer, IsPlainName name) ∧
      (∀ name ∈ ["lib".toList] ++ ["..x: y".toList], IsPlainName name) ∧
      wayAcross importer (["lib".toList] ++ ["..x: y".toList]) = "./../../lib/..x: y" ∧
      resolveImport? "src/a b/a.ts" "./../../lib/..x: y" known = some "lib/..x: y.tsx" := by
  intro importer known
  have here : ∀ name ∈ importer, IsPlainName name := by decide
  have there : ∀ name ∈ ["lib".toList] ++ ["..x: y".toList], IsPlainName name := by decide
  have script : ".tsx" ∈ [".ts", ".tsx", ".js", ".jsx"] := by decide
  have found : resolveImport? (ofParts importer) (wayAcross importer _) known = some _ :=
    resolveImport?_wayAcross here there script (by decide +kernel) (by decide +kernel)
  have file : ofParts importer = "src/a b/a.ts" := by decide +kernel
  have way : wayAcross importer (["lib".toList] ++ ["..x: y".toList]) = "./../../lib/..x: y" := by
    decide +kernel
  have target : ofParts (["lib".toList] ++ ["..x: y".toList ++ ".tsx".toList]) =
      "lib/..x: y.tsx" := by decide +kernel
  rw [file, way, target] at found
  exact ⟨here, there, way, found⟩

/-- What is tried at the root is a suffix and nothing else. -/
theorem tried_at_root : ∀ suffix ∈ importSuffixes,
    ofParts [] ++ suffix ≠ ofParts ["index.ts".toList] ∧
      (isAbsolute (ofParts [] ++ suffix) = true →
        ofParts [] ++ suffix = "/index.ts" ∨ ofParts [] ++ suffix = "/index.tsx") := by
  decide +kernel

/-- An import that leads to a folder finds its index file, where no file with the name of the folder
and an ending comes before it, unless the folder is the root. At the root the suffixes alone are
tried, so that two of them, with a slash in front, are the only absolute paths an import of a
relative path can find. -/
theorem resolveImport?_folder (canonical : Canonical importer)
    (inside : isAbsolute importer = false)
    (clear : Text.trimFront importer.toList = importer.toList) :
    (∀ folder, specifier.startsWith "." = true →
      Leads (folderOf importer) (importSegments specifier) folder →
      known (ofParts (folder ++ ["index.ts".toList])) = true →
      (∀ suffix ∈ [".ts", ".tsx", ".js", ".jsx"], known (ofParts folder ++ suffix) = false) →
      (resolveImport? importer specifier known = some (ofParts (folder ++ ["index.ts".toList])) ↔
        folder ≠ [])) ∧
    ∀ target, resolveImport? importer specifier known = some target → isAbsolute target = true →
      Leads (folderOf importer) (importSegments specifier) [] ∧
        (target = "/index.ts" ∨ target = "/index.tsx") := by
  refine ⟨fun folder relative leads listed first => ?_, fun target found rooted => ?_⟩
  · rw [resolveImport?, if_pos relative,
      leads.importBase_eq canonical inside clear (startsWith_point_iff.mp relative)]
    constructor
    · rintro found rfl
      obtain ⟨suffix, member, same⟩ := List.mem_map.mp (List.mem_of_find?_eq_some found)
      exact (tried_at_root suffix member).1 same
    · intro below
      rw [ofParts_snoc below] at listed ⊢
      exact find?_suffix (by decide) listed first
  · rw [resolveImport?] at found
    split at found
    · next relative =>
      obtain ⟨suffix, member, rfl⟩ := List.mem_map.mp (List.mem_of_find?_eq_some found)
      rcases importBase_root_or_relative canonical inside clear (startsWith_point_iff.mp relative)
        with ⟨root, leads⟩ | below
      · rw [root] at rooted ⊢
        exact ⟨leads, (tried_at_root suffix member).2 rooted⟩
      · rw [below] at rooted
        cases rooted
    · cases found

/-- From a file in a folder of the root, to a folder in it by a name, two points, a back slash and a
blank, and to the root, where the file that is found has an absolute path. -/
theorem resolveImport?_folder_lib :
    let known (path : String) := path == "src/lib/index.ts" || path == "/index.tsx"
    let way := [".".toList, "a".toList, "..".toList, "lib".toList, []]
    (Canonical "src/a.ts" ∧ importSegments "./a/..\\lib/ " = way ∧
      Leads ["src".toList] way ["src".toList, "lib".toList]) ∧
    resolveImport? "src/a.ts" "./a/..\\lib/ " known = some "src/lib/index.ts" ∧
    resolveImport? "src/a.ts" "../" known = some "/index.tsx" ∧
    Leads (folderOf "src/a.ts") (importSegments "../") [] := by
  intro known way
  have canonical : Canonical "src/a.ts" :=
    (normalize_eq_self_iff.mp (show normalize "src/a.ts" = "src/a.ts" by decide +kernel)).1
  have inside : isAbsolute "src/a.ts" = false := by decide +kernel
  have clear : Text.trimFront "src/a.ts".toList = "src/a.ts".toList := by decide +kernel
  have folder : folderOf "src/a.ts" = ["src".toList] := by decide +kernel
  have segments : importSegments "./a/..\\lib/ " = way := by decide +kernel
  have leads : Leads ["src".toList] way ["src".toList, "lib".toList] :=
    .stay (.inr rfl) (.enter (by decide) (.up (by decide) (.enter (by decide)
      (.stay (.inl rfl) (.here _)))))
  have within : Leads (folderOf "src/a.ts") (importSegments "./a/..\\lib/ ")
      ["src".toList, "lib".toList] := by
    rw [folder, segments]
    exact leads
  have index : resolveImport? "src/a.ts" "./a/..\\lib/ " known =
      some (ofParts (["src".toList, "lib".toList] ++ ["index.ts".toList])) :=
    ((resolveImport?_folder canonical inside clear).1 _ (by decide +kernel) within
      (by decide +kernel) (by decide +kernel)).mpr (by decide)
  have file : ofParts (["src".toList, "lib".toList] ++ ["index.ts".toList]) =
      "src/lib/index.ts" := by decide +kernel
  rw [file] at index
  have root : resolveImport? "src/a.ts" "../" known = some "/index.tsx" := by decide +kernel
  exact ⟨⟨canonical, segments, leads⟩, index, root,
    ((resolveImport?_folder canonical inside clear).2 _ root (by decide +kernel)).1⟩

/-- The index file of the root is known, but an import of the root does not find it. It finds
another file, with an absolute path, if that is known. -/
theorem resolveImport?_misses_root :
    (normalize "src/a.ts" = "src/a.ts" ∧ Leads (folderOf "src/a.ts") (importSegments "..") [] ∧
      ∀ suffix ∈ [".ts", ".tsx", ".js", ".jsx"], (ofParts [] ++ suffix == "index.ts") = false) ∧
    resolveImport? "src/a.ts" ".." (· == "index.ts") = none ∧
    resolveImport? "src/a.ts" ".." (fun path => path == "index.ts" || path == "/index.ts") =
      some "/index.ts" := by
  have folder : folderOf "src/a.ts" = [] ++ ["src".toList] := by decide +kernel
  rw [folder]
  exact ⟨⟨by decide +kernel, .up (by decide) (.here _), by decide +kernel⟩, by decide +kernel,
    by decide +kernel⟩

end CodeAtlas.Path
