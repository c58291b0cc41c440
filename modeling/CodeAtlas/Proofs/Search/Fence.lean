import CodeAtlas.Proofs.Search.Comment

namespace CodeAtlas.FileHint

open Text

variable {line words before after token path : List Char}

/-- A text that is a label, with the path after it: one of two words, in any case, before a colon. -/
inductive IsLabel : List Char → List Char → Prop
  | intro {front word gap after : List Char} : front.all isBlank = true → gap.all isBlank = true →
      word.map Char.toLower = "file".toList ∨ word.map Char.toLower = "path".toList →
      trim after ≠ [] → IsLabel (front ++ word ++ gap ++ ':' :: after) (trim after)

theorem splitAtColon?_append (plain : ':' ∉ before) (after : List Char) :
    splitAtColon? (before ++ ':' :: after) = some (before, after) := by
  unfold splitAtColon?
  simp only [takeWhile_append_mark plain, List.drop_left]

theorem eq_append_of_splitAtColon? (split : splitAtColon? line = some (before, after)) :
    line = before ++ ':' :: after := by
  unfold splitAtColon? at split
  dsimp only at split
  rcases drop_takeWhile ':' line with ⟨nothing, _⟩ | ⟨rest, left, whole⟩
  · rw [nothing] at split
    cases split
  · rw [left] at split
    obtain ⟨rfl, rfl⟩ := Prod.mk.inj (Option.some.inj split)
    exact whole

/-- The words of labels have neither blanks nor colons in them, in any case. -/
theorem plain_of_label {word : List Char}
    (known : word.map Char.toLower = "file".toList ∨ word.map Char.toLower = "path".toList) :
    ∀ c ∈ word, isBlank c = false ∧ c ≠ ':' := by
  intro c member
  have letters : ∀ x ∈ "file".toList ++ "path".toList, isBlank x = false ∧ x ≠ ':' := by
    simpa using (by decide : ("file".toList ++ "path".toList).all fun x => !isBlank x && x != ':')
  have lowered : c.toLower ∈ "file".toList ++ "path".toList := by
    have mapped : c.toLower ∈ word.map Char.toLower := List.mem_map.mpr ⟨c, member, rfl⟩
    rcases known with same | same
    · exact List.mem_append_left _ (same ▸ mapped)
    · exact List.mem_append_right _ (same ▸ mapped)
  obtain ⟨visible, other⟩ := letters _ lowered
  refine ⟨Bool.eq_false_iff.mpr fun blank => ?_, ?_⟩
  · rw [toLower_of_isBlank blank, blank] at visible
    cases visible
  · rintro rfl
    exact other (by decide)

theorem labeledPath?_eq_some_iff : labeledPath? line = some path ↔ IsLabel line path := by
  constructor
  · intro read
    obtain ⟨⟨label, after⟩, split, read⟩ := Option.bind_eq_some_iff.mp read
    dsimp only at read
    split at read
    · next known =>
      obtain rfl := Option.some.inj read
      rw [Bool.and_eq_true, Bool.or_eq_true, beq_iff_eq, beq_iff_eq, Bool.not_eq_true',
        List.isEmpty_eq_false_iff] at known
      obtain ⟨front, gap, whole, blank, blankGap⟩ := exists_trim label
      rw [eq_append_of_splitAtColon? split, whole]
      exact .intro blank blankGap known.1 known.2
    · cases read
  · rintro ⟨blank, blankGap, known, named⟩
    next front word gap after =>
    have plain := plain_of_label known
    have colonless : ':' ∉ front ++ word ++ gap := by
      have blankless {text : List Char} (blank : text.all isBlank = true) : ':' ∉ text := fun member =>
        absurd (List.all_eq_true.mp blank ':' member) (by decide)
      simp only [List.mem_append, not_or]
      exact ⟨⟨blankless blank, fun member => (plain _ member).2 rfl⟩, blankless blankGap⟩
    have label : trim (front ++ word ++ gap) = word :=
      trim_between blank blankGap (trim_of_plain fun c member => (plain c member).1)
    rw [labeledPath?, splitAtColon?_append colonless]
    refine if_pos ?_
    rw [label, Bool.and_eq_true, Bool.or_eq_true, beq_iff_eq, beq_iff_eq, Bool.not_eq_true',
      List.isEmpty_eq_false_iff]
    exact ⟨known, named⟩

/-- A token that ends like the name of a file: its last part has a stem, a point and an extension of
ASCII letters and digits. -/
inductive NamesFile : List Char → Prop
  | intro {folder stem extension : List Char} : (folder = [] ∨ ['/'] <:+ folder) → '/' ∉ stem →
      stem ≠ [] → extension ≠ [] → (∀ c ∈ extension, c.isAlphanum = true) →
      NamesFile (folder ++ stem ++ '.' :: extension)

/-- The last part of a token, turned round, is what its characters from the end begin with. -/
theorem takeWhile_reverse {folder part : List Char} (folders : folder = [] ∨ ['/'] <:+ folder)
    (plain : '/' ∉ part) : (folder ++ part).reverse.takeWhile (· != '/') = part.reverse := by
  have turned : '/' ∉ part.reverse := fun member => plain (List.mem_reverse.mp member)
  rw [List.reverse_append]
  rcases folders with rfl | ⟨start, rfl⟩
  · rw [List.reverse_nil, List.append_nil, List.takeWhile_eq_self_iff]
    intro c member
    simpa using fun same : c = '/' => turned (same ▸ member)
  · rw [List.reverse_append]
    exact takeWhile_append_mark turned start.reverse

theorem exists_part (token : List Char) : ∃ folder part, token = folder ++ part ∧
    (folder = [] ∨ ['/'] <:+ folder) ∧ '/' ∉ part := by
  have plain : '/' ∉ (token.reverse.takeWhile (· != '/')).reverse := fun member => by
    simpa using List.mem_takeWhile_imp (List.mem_reverse.mp member)
  rcases drop_takeWhile '/' token.reverse with ⟨_, all⟩ | ⟨rest, _, whole⟩
  · refine ⟨[], token, rfl, .inl rfl, ?_⟩
    rwa [all, List.reverse_reverse] at plain
  · refine ⟨rest.reverse ++ ['/'], _, ?_, .inr ⟨rest.reverse, rfl⟩, plain⟩
    have turned := congrArg List.reverse whole
    simpa using turned

theorem hasExtension_append {folder part : List Char} (folders : folder = [] ∨ ['/'] <:+ folder)
    (plain : '/' ∉ part) : hasExtension (folder ++ part) = true ↔
      ∃ stem extension, part = stem ++ '.' :: extension ∧ stem ≠ [] ∧ extension ≠ [] ∧
        ∀ c ∈ extension, c.isAlphanum = true := by
  unfold hasExtension
  rw [takeWhile_reverse folders plain]
  dsimp only
  constructor
  · intro has
    rcases drop_takeWhile '.' part.reverse with ⟨nothing, _⟩ | ⟨stem, left, whole⟩
    · rw [nothing] at has
      cases has
    · rw [left] at has
      have turned := congrArg List.reverse whole
      rw [List.reverse_reverse, List.reverse_append, List.reverse_cons, List.append_assoc] at turned
      refine ⟨_, _, turned, ?_⟩
      simpa [and_assoc] using has
  · rintro ⟨stem, extension, rfl, stemmed, extended, ascii⟩
    have pointless : '.' ∉ extension.reverse := fun member =>
      absurd (ascii '.' (List.mem_reverse.mp member)) (by decide)
    have spelled : (stem ++ '.' :: extension).reverse = extension.reverse ++ '.' :: stem.reverse := by
      simp
    rw [spelled, takeWhile_append_mark pointless, List.drop_left]
    simpa [stemmed, extended] using ascii

theorem hasExtension_iff : hasExtension token = true ↔ NamesFile token := by
  constructor
  · intro has
    obtain ⟨folder, part, rfl, folders, plain⟩ := exists_part token
    obtain ⟨stem, extension, rfl, stemmed, extended, ascii⟩ :=
      (hasExtension_append folders plain).mp has
    rw [← List.append_assoc]
    exact .intro folders (fun member => plain (List.mem_append_left _ member)) stemmed extended ascii
  · rintro ⟨folders, plain, stemmed, extended, ascii⟩
    next folder stem extension =>
    have whole : '/' ∉ stem ++ '.' :: extension := by
      simp only [List.mem_append, List.mem_cons, not_or]
      exact ⟨plain, by decide, fun member => absurd (ascii '/' member) (by decide)⟩
    rw [List.append_assoc]
    exact (hasExtension_append folders whole).mpr ⟨stem, extension, rfl, stemmed, extended, ascii⟩

theorem firstToken?_eq (trimmed : trim words = words) :
    firstToken? words = if hasExtension (firstWord words) then some (firstWord words) else none := by
  rw [firstToken?, head?_words (trimFront_of_trim_eq trimmed)]
  by_cases nothing : firstWord words = []
  · rw [if_pos nothing, nothing]
    rfl
  · rw [if_neg nothing]
    rfl

/-- The three marks that a block of code begins with. -/
def fenceMark : List Char := ['\x60', '\x60', '\x60']

theorem not_isLabel_of_fence (fenced : fenceMark <+: line) : ¬ IsLabel line path := by
  obtain ⟨more, same⟩ := fenced
  intro label
  obtain @⟨front, word, _, _, blank, _, known, _⟩ := label
  rw [List.append_assoc, List.append_assoc] at same
  cases front with
  | cons c front =>
    obtain ⟨rfl, _⟩ := List.cons.inj same
    exact absurd (List.all_eq_true.mp blank _ List.mem_cons_self) (by decide)
  | nil =>
    cases word with
    | nil => exact absurd known (by decide)
    | cons c word =>
      obtain ⟨rfl, _⟩ := List.cons.inj same
      rcases known with known | known
      · exact absurd (List.cons.inj known).1 (by decide)
      · exact absurd (List.cons.inj known).1 (by decide)

theorem pathInLines?_fence (fenced : fenceMark <+: line) (comment : List Char)
    (others : List (List Char)) :
    pathInLines? (line :: comment :: others) =
      (commentBody? comment).bind fun words => (labeledPath? words).or (firstToken? words) := by
  have unlabeled : labeledPath? line = none := Option.eq_none_iff_forall_ne_some.mpr fun path read =>
    not_isLabel_of_fence fenced (labeledPath?_eq_some_iff.mp read)
  have begins : ['\x60', '\x60', '\x60'].isPrefixOf line = true := List.isPrefixOf_iff_prefix.mpr fenced
  rw [pathInLines?, unlabeled]
  dsimp only
  rw [begins, if_pos rfl]
  cases said : commentBody? comment with
  | none => simp [said]
  | some words => simp [said]

section Block

variable {text fence comment : String} {blanks further : List String}
  (made : lines text = blanks ++ fence :: comment :: further)
  (blank : ∀ line ∈ blanks, isBlankText line = true) (fenced : fenceMark <+: trim fence.toList)
include made blank fenced

theorem path?_fence : path? text =
    ((commentBody? (trim comment.toList)).bind fun words =>
      (labeledPath? words).or (firstToken? words)).map fun path => Path.normalize (String.ofList path) := by
  have passed : ∀ line ∈ blanks.map fun line => trim line.toList, line.isEmpty = true := by
    intro line member
    obtain ⟨whole, listed, rfl⟩ := List.mem_map.mp member
    have nothing : trim whole.toList = [] := by
      rw [trim, trimFront_of_blank (blank whole listed)]
      rfl
    rw [nothing]
    rfl
  have visible : (trim fence.toList).isEmpty = false := by
    obtain ⟨more, same⟩ := fenced
    rw [← same]
    rfl
  rw [path?, trimmedLines, made, List.map_append, List.dropWhile_append_of_pos passed, List.map_cons,
    List.dropWhile_cons_of_neg (by simp [visible]), List.map_cons, pathInLines?_fence fenced]

/-- What the line after a fence says decides on the file, whatever comes after it. It is a comment in
one of four styles, or it names nothing. A comment that consists of a path with an extension names that
path; a label names the path after it, whatever that looks like; any other comment names its first word
if that has an extension, and else nothing. -/
theorem path?_fenced :
    (∀ path, IsComment comment.toList path → (∀ c ∈ path, isBlank c = false) → ':' ∉ path →
      NamesFile path → path? text = some (Path.normalize (String.ofList path))) ∧
    (∀ word path, IsComment comment.toList (word ++ ':' :: ' ' :: path) →
      word.map Char.toLower = "file".toList ∨ word.map Char.toLower = "path".toList →
      path ≠ [] → (∀ c ∈ path, isBlank c = false) →
        path? text = some (Path.normalize (String.ofList path))) ∧
    (∀ words, IsComment comment.toList words → (¬ ∃ path, IsLabel words path) →
      (NamesFile (firstWord words) →
        path? text = some (Path.normalize (String.ofList (firstWord words)))) ∧
      (¬ NamesFile (firstWord words) → path? text = none)) ∧
    ((¬ ∃ words, IsComment comment.toList words) → path? text = none) := by
  have read := path?_fence made blank fenced
  have ofComment {words : List Char} (isComment : IsComment comment.toList words) : path? text =
      ((labeledPath? words).or (firstToken? words)).map fun path =>
        Path.normalize (String.ofList path) := by
    rw [read, commentBody?_eq_some_iff.mpr isComment]
    rfl
  have unlabeled {words : List Char} (isComment : IsComment comment.toList words)
      (other : ¬ ∃ path, IsLabel words path) : path? text =
      (if hasExtension (firstWord words) then some (firstWord words) else none).map fun path =>
        Path.normalize (String.ofList path) := by
    have nothing : labeledPath? words = none := Option.eq_none_iff_forall_ne_some.mpr
      fun path found => other ⟨path, labeledPath?_eq_some_iff.mp found⟩
    rw [ofComment isComment, nothing, Option.none_or, firstToken?_eq isComment.trimmed]
  refine ⟨fun path isComment plain colonless named => ?_, fun word path isComment known nonempty
    plain => ?_, fun words isComment other => ⟨fun named => ?_, fun unnamed => ?_⟩, fun other => ?_⟩
  · have alone : firstWord path = path := List.takeWhile_eq_self_iff.mpr fun c member => by
      simp [plain c member]
    have other : ¬ ∃ found, IsLabel path found := by
      rintro ⟨found, ⟨⟩⟩
      exact colonless (by simp)
    rw [unlabeled isComment other, alone, hasExtension_iff.mpr named]
    rfl
  · have label : IsLabel (word ++ ':' :: ' ' :: path) path := by
      have trimmed : trim (' ' :: path) = path :=
        (trim_blank_append (show [' '].all isBlank = true by decide) path).trans (trim_of_plain plain)
      have whole : IsLabel ([] ++ word ++ [] ++ ':' :: ' ' :: path) (trim (' ' :: path)) :=
        .intro rfl rfl known (by rwa [trimmed])
      rwa [trimmed, List.nil_append, List.append_nil] at whole
    rw [ofComment isComment, labeledPath?_eq_some_iff.mpr label]
    rfl
  · rw [unlabeled isComment other, hasExtension_iff.mpr named]
    rfl
  · rw [unlabeled isComment other, if_neg (mt hasExtension_iff.mp unnamed)]
    rfl
  · have nothing : commentBody? (trim comment.toList) = none :=
      Option.eq_none_iff_forall_ne_some.mpr fun words found =>
        other ⟨words, commentBody?_eq_some_iff.mp found⟩
    rw [read, nothing]
    rfl

end Block

/-- A block comment between blanks, a label, a comment that begins with no name of a file, and a line
that is no comment. -/
theorem path?_fenced_styles :
    path? "\n \t\r\n  ```ts title\n\t/*  src/./a.ts */\t\r\nrun()" = some "src/a.ts" ∧
    path? "```\n--PATH: lib//b:1\n" = some "lib/b:1" ∧
    path? "```\n//main.py is run\n" = some "main.py" ∧
    path? "```\n# see main.py\n" = none ∧
    path? "```\nrun()\n# main.py\n" = none := by
  refine ⟨?_, ?_, ?_, ?_, ?_⟩
  · have made : lines "\n \t\r\n  ```ts title\n\t/*  src/./a.ts */\t\r\nrun()" =
        ["", " \t"] ++ "  ```ts title" :: "\t/*  src/./a.ts */\t" :: ["run()"] := by
      decide
    have comment : IsComment (['\t'] ++ ['/', '*'] ++ [' ', ' '] ++ "src/./a.ts".toList ++ [' '] ++
        closings 1 ++ ['\t']) "src/./a.ts".toList :=
      .block rfl rfl rfl rfl (by decide) (by decide)
    rw [(path?_fenced made (by decide) (by decide)).1 _ comment (visible_of_all (by decide)) (by decide)
      (hasExtension_iff.mp (by decide))]
    decide
  · have made : lines "```\n--PATH: lib//b:1\n" = [] ++ "```" :: "--PATH: lib//b:1" :: [] := by decide
    have comment : IsComment "--PATH: lib//b:1".toList ("PATH".toList ++ ':' :: ' ' :: "lib//b:1".toList) :=
      commentBody?_eq_some_iff.mp (by decide)
    rw [(path?_fenced made (by decide) (by decide)).2.1 _ _ comment (.inr (by decide)) (by decide)
      (visible_of_all (by decide))]
    decide
  · have made : lines "```\n//main.py is run\n" = [] ++ "```" :: "//main.py is run" :: [] := by decide
    have comment : IsComment "//main.py is run".toList "main.py is run".toList :=
      commentBody?_eq_some_iff.mp (by decide)
    refine ((path?_fenced made (by decide) (by decide)).2.2.1 _ comment ?_).1
      (hasExtension_iff.mp (by decide))
    rintro ⟨path, label⟩
    have unlabeled : labeledPath? "main.py is run".toList = none := by decide
    rw [labeledPath?_eq_some_iff.mpr label] at unlabeled
    cases unlabeled
  · have made : lines "```\n# see main.py\n" = [] ++ "```" :: "# see main.py" :: [] := by decide
    have comment : IsComment "# see main.py".toList "see main.py".toList :=
      commentBody?_eq_some_iff.mp (by decide)
    refine ((path?_fenced made (by decide) (by decide)).2.2.1 _ comment ?_).2
      (mt hasExtension_iff.mpr (by decide))
    rintro ⟨path, label⟩
    have unlabeled : labeledPath? "see main.py".toList = none := by decide
    rw [labeledPath?_eq_some_iff.mpr label] at unlabeled
    cases unlabeled
  · have made : lines "```\nrun()\n# main.py\n" = [] ++ "```" :: "run()" :: ["# main.py"] := by decide
    refine (path?_fenced made (by decide) (by decide)).2.2.2 ?_
    rintro ⟨words, comment⟩
    have silent : commentBody? (trim "run()".toList) = none := by decide
    rw [commentBody?_of_isComment comment] at silent
    cases silent

end CodeAtlas.FileHint