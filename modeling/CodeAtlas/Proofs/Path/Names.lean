import CodeAtlas.Proofs.Path.Spelling

namespace CodeAtlas.Path

variable {names : List String}

/-- A name that a file or folder may have: any text but the empty one, one of points and one with a
slash in it. -/
@[mk_iff]
structure IsFileName (name : String) : Prop where
  nonempty : name ≠ ""
  ne_point : name ≠ "."
  ne_points : name ≠ ".."
  slashless : '/' ∉ name.toList

instance (name : String) : Decidable (IsFileName name) := decidable_of_iff' _ (isFileName_iff name)

end CodeAtlas.Path
