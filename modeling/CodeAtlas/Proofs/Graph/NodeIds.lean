import CodeAtlas.Graph.Basic
import CodeAtlas.Proofs.Text.Colon

namespace CodeAtlas

theorem SymbolKind.colon_not_mem_name (kind : SymbolKind) : ':' ∉ kind.name.toList := by
  cases kind <;> decide

theorem SymbolKind.name_injective {first second : SymbolKind} (same : first.name = second.name) :
    first = second := by
  cases first <;> cases second <;> first | rfl | exact absurd same (by decide)

theorem SymbolKind.name_ne_file (kind : SymbolKind) : kind.name ≠ "file" := by
  cases kind <;> decide

namespace GraphNode

theorem fileId_eq (path : String) : fileId path = "file" ++ ":" ++ path := rfl

theorem symbolId_eq (kind : SymbolKind) (path name : String) :
    symbolId kind path name = kind.name ++ ":" ++ (path ++ ":" ++ name) := by
  simp only [symbolId, String.append_assoc]

theorem fileId_injective {first second : String} (same : fileId first = fileId second) :
    first = second := by
  rw [fileId_eq, fileId_eq] at same
  exact (Text.colon_append_inj (by decide) (by decide) same).2

theorem symbolId_ne_fileId {kind : SymbolKind} {path name other : String} :
    symbolId kind path name ≠ fileId other := by
  intro same
  rw [symbolId_eq, fileId_eq] at same
  exact kind.name_ne_file (Text.colon_append_inj kind.colon_not_mem_name (by decide) same).1

theorem symbolId_injective {kind other : SymbolKind} {path path' name name' : String}
    (plain : ':' ∉ path.toList) (plain' : ':' ∉ path'.toList)
    (same : symbolId kind path name = symbolId other path' name') :
    kind = other ∧ path = path' ∧ name = name' := by
  rw [symbolId_eq, symbolId_eq] at same
  obtain ⟨kinds, rests⟩ :=
    Text.colon_append_inj kind.colon_not_mem_name other.colon_not_mem_name same
  exact ⟨SymbolKind.name_injective kinds, Text.colon_append_inj plain plain' rests⟩

/-- The id is that of a file or of a symbol in it. -/
def IsIdOf (path id : String) : Prop :=
  id = fileId path ∨ ∃ kind name, id = symbolId kind path name

theorem IsIdOf.path_eq {path other : String} (ofPath : IsIdOf path (fileId other)) :
    path = other := by
  rcases ofPath with same | ⟨kind, name, same⟩
  · exact (fileId_injective same).symm
  · exact absurd same.symm symbolId_ne_fileId

/-- No two files share an id if there is no colon in their paths. -/
theorem IsIdOf.path_unique {first second id : String} (plain : ':' ∉ first.toList)
    (plain' : ':' ∉ second.toList) (ofFirst : IsIdOf first id) (ofSecond : IsIdOf second id) :
    first = second := by
  rcases ofFirst with rfl | ⟨kind, name, rfl⟩
  · exact ofSecond.path_eq.symm
  · rcases ofSecond with same | ⟨other, name', same⟩
    · exact absurd same symbolId_ne_fileId
    · exact (symbolId_injective plain plain' same).2.1

end GraphNode

end CodeAtlas
