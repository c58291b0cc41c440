import CodeAtlas.Proofs.Chunk.Counted
import CodeAtlas.Proofs.Text.Trim
import CodeAtlas.Search.FileHint

namespace CodeAtlas

namespace Path

theorem normalize_trim (path : List Char) :
    normalize (String.ofList (Text.trim path)) = normalize (String.ofList path) := by
  simp only [normalize, String.toList_ofList, normalizeChars, Text.trim_trim]

end Path

namespace FileHint

theorem labeledPath?_of_file {after : List Char} (visible : after.all Text.isBlank = false) :
    labeledPath? ("File:".toList ++ after) = some (Text.trim after) := by
  have split : splitAtColon? ("File:".toList ++ after) = some ("File".toList, after) := rfl
  have word : ((Text.trim "File".toList).map Char.toLower == "file".toList) = true := by decide
  have left : (Text.trim after).isEmpty = false :=
    List.isEmpty_eq_false_iff.mpr (Text.trim_ne_nil visible)
  rw [labeledPath?, split]
  refine if_pos ?_
  rw [word, left]
  rfl

/-- A path in a label is read without the blanks at its ends. -/
theorem labeledPath?_header {path : List Char} (visible : path.all Text.isBlank = false) :
    labeledPath? (Text.trim (Chunk.headerLabel.toList ++ path)) = some (Text.trim path) := by
  have blank : [' '].all Text.isBlank = true := by decide
  have spaced : ([' '] ++ path).all Text.isBlank = false := by
    rw [List.all_append, visible, Bool.and_false]
  have shortened : (Text.trimBack ([' '] ++ path)).all Text.isBlank = false := by
    rw [Text.trimBack_append visible, List.all_append, Bool.and_eq_false_iff]
    refine .inr (Bool.eq_false_iff.mpr fun nothing => Text.trim_ne_nil visible ?_)
    rw [← Text.trim_trimBack, Text.trim, Text.trimFront_of_blank nothing]
    rfl
  have header : Text.trim (Chunk.headerLabel.toList ++ path) =
      "File:".toList ++ Text.trimBack ([' '] ++ path) := by
    rw [← Text.trimBack_append spaced]
    rfl
  rw [header, labeledPath?_of_file shortened, Text.trim_trimBack, Text.trim_blank_append blank]

theorem trimmedLines_header {path : String} (single : '\n' ∉ path.toList)
    (visible : path.toList.all Text.isBlank = false) (body : String) :
    ∃ others, trimmedLines (Chunk.headerLabel ++ path ++ "\n" ++ body) =
      Text.trim (Chunk.headerLabel.toList ++ path.toList) :: others := by
  have line : '\n' ∉ (Chunk.headerLabel ++ path).toList := by
    rw [String.toList_append, List.mem_append]
    exact not_or.mpr ⟨by decide, single⟩
  have kept : (Text.trim (Chunk.headerLabel.toList ++ path.toList)).isEmpty = false := by
    refine List.isEmpty_eq_false_iff.mpr (Text.trim_ne_nil ?_)
    rw [List.all_append, visible, Bool.and_false]
  refine ⟨(Text.lines body).map fun line => Text.trim line.toList, ?_⟩
  rw [trimmedLines, Text.lines_append line, List.map_cons, Text.trim_closeLine,
    String.toList_append, List.dropWhile_cons_of_neg (by simp [kept])]

/-- What follows the header has no say. -/
theorem path?_header {path : String} (single : '\n' ∉ path.toList)
    (named : Text.isBlankText path = false) (body : String) :
    path? (Chunk.headerLabel ++ path ++ "\n" ++ body) = some (Path.normalize path) := by
  obtain ⟨others, lines⟩ := trimmedLines_header single named body
  have read : pathInLines? (Text.trim (Chunk.headerLabel.toList ++ path.toList) :: others) =
      some (Text.trim path.toList) := by
    rw [pathInLines?, labeledPath?_header named]
  rw [path?, lines, read, Option.map_some, Path.normalize_trim, String.ofList_toList]

end FileHint

namespace Chunk

variable {options : ChunkOptions} {path content : String} {symbols : List Declared}
  {chunks : List Chunk}

theorem exists_body_of_mem_cut (run : cut options path content symbols = .ok chunks)
    {chunk : Chunk} (member : chunk ∈ chunks) :
    ∃ body, chunk.content = headerLabel ++ path ++ "\n" ++ body := by
  obtain ⟨pieces, made, rfl⟩ := cut_eq_ok_iff.mp run
  obtain ⟨piece, listed, inside⟩ := List.mem_flatten.mp member
  obtain ⟨stretch, _, cutOut⟩ := exists_of_mem_mapM made listed
  obtain ⟨windows, _, rfl⟩ := Option.map_eq_some_iff.mp cutOut
  obtain ⟨window, _, rfl⟩ := List.mem_map.mp inside
  exact ⟨_, rfl⟩

theorem exists_cut (path : String)
    (ordered : ∀ symbol ∈ symbols, symbol.firstLine ≤ symbol.lastLine)
    (positive : 1 ≤ options.maxLines)
    (countable : (Text.lines content).length + options.maxLines < UInt64.size) :
    ∃ chunks, cut options path content symbols = .ok chunks := by
  obtain ⟨size, skipBlank⟩ := options
  obtain ⟨chunks, run, _⟩ := cut_isPartition path ordered positive countable
  cases skipBlank with
  | false => exact ⟨chunks, run⟩
  | true => exact ⟨_, cut_skipBlank run⟩

/-- Every chunk of a file tells the one spelling of the path of the file, whatever the path is made
of and whatever lines follow it. The path is one line that is not blank. Where the declarations end
after they begin and the lines can be counted, there are chunks to tell it. -/
theorem cut_names_file (path : String) (single : '\n' ∉ path.toList)
    (named : Text.isBlankText path = false) :
    (∀ body, FileHint.path? (headerLabel ++ path ++ "\n" ++ body) = some (Path.normalize path)) ∧
    ∀ (options : ChunkOptions) (content : String) (symbols : List Declared),
      (∀ chunks, cut options path content symbols = .ok chunks →
        ∀ chunk ∈ chunks, FileHint.path? chunk.content = some (Path.normalize path)) ∧
      ((∀ symbol ∈ symbols, symbol.firstLine ≤ symbol.lastLine) → 1 ≤ options.maxLines →
        (Text.lines content).length + options.maxLines < UInt64.size →
          ∃ chunks, cut options path content symbols = .ok chunks) := by
  refine ⟨FileHint.path?_header single named, fun options content symbols => ⟨?_, ?_⟩⟩
  · intro chunks run chunk member
    obtain ⟨body, same⟩ := exists_body_of_mem_cut run member
    rw [same]
    exact FileHint.path?_header single named body
  · exact exists_cut path

/-- A path with a label, a colon and a back slash in it and blanks around it, before a line that names
another file. -/
theorem cut_names_file_labelled :
    let path := " .\\Path: a.ts\r"
    '\n' ∉ path.toList ∧ Text.isBlankText path = false ∧
      ∃ chunk, cut ⟨2, false⟩ path "File: b.ts\n" [] = .ok [chunk] ∧
        FileHint.path? chunk.content = some "Path: a.ts" := by
  intro path
  have single : '\n' ∉ path.toList := by decide
  have named : Text.isBlankText path = false := by decide
  have run : cut ⟨2, false⟩ path "File: b.ts\n" [] =
      .ok [ofLines #["File: b.ts"] path none (1, 1)] := by
    have undeclared : outermost [] = [] := by rw [outermost, List.mergeSort_nil, List.foldl_nil]
    rw [cut, undeclared]
    rfl
  refine ⟨single, named, _, run, ?_⟩
  have read := ((cut_names_file path single named).2 ⟨2, false⟩ "File: b.ts\n" []).1 _ run _
    List.mem_cons_self
  exact read.trans (congrArg some (by decide))

end Chunk

end CodeAtlas
