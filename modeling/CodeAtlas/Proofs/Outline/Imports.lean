import CodeAtlas.Outline.Tree
import CodeAtlas.Proofs.Outline.Declarations
import CodeAtlas.Proofs.Outline.Program
import CodeAtlas.Proofs.Script.Enumerated

namespace CodeAtlas.Outline

open Script

variable (text : Wording)

/-- What a part of an import clause binds, at an address in it: a name for the default, a name space, or
the names between braces. -/
inductive PartBinds (part : Node) : Address → String × Bool → Prop
  | default : part.kind = .identifier → PartBinds part [] (text part, true)
  | space {name : Node} :
      part.kind = .namespaceImport → part.children.find? (·.kind == .identifier) = some name →
      PartBinds part [] (text name, false)
  /-- A name is bound under its other name, if it has one. -/
  | specifier {step : Nat} {specifier bound : Node} {isDefault : Bool} :
      part.kind = .namedImports → part.children[step]? = some specifier →
      specifier.kind = .importSpecifier →
      (specifier.child? .alias = some bound ∨
        specifier.child? .alias = none ∧ specifier.child? .name = some bound) →
      (isDefault = true ↔
        ∃ imported, specifier.child? .name = some imported ∧ text imported = "default") →
      PartBinds part [step] (text bound, isDefault)

/-- The names that an import statement binds, and whether each stands for the default. -/
inductive StatementBinds (statement : Node) : Address → String × Bool → Prop
  | clause {step inner : Nat} {clause part : Node} {rest : Address} {binding : String × Bool} :
      statement.children[step]? = some clause → clause.kind = .importClause →
      clause.children[inner]? = some part → PartBinds text part rest binding →
      StatementBinds statement (step :: inner :: rest) binding
  | required {step : Nat} {clause name : Node} :
      statement.children[step]? = some clause → clause.kind = .importRequireClause →
      clause.children.find? (·.kind == .identifier) = some name →
      StatementBinds statement [step] (text name, true)

/-- What a statement binds that imports a module: its names, or `*` if it has none. -/
inductive ImportBinds (statement : Node) (module : String) : Address → ImportBinding → Prop
  | name {rest : Address} {name : String} {isDefault : Bool} :
      StatementBinds text statement rest (name, isDefault) →
      ImportBinds statement module rest ⟨name, module, isDefault⟩
  | nothing :
      (∀ rest binding, ¬StatementBinds text statement rest binding) →
      ImportBinds statement module [] ⟨"*", module, false⟩

/-- The top-level imports that name a module, and what they bind. -/
def IsImported (tree : Node) (place : Address) (binding : ImportBinding) : Prop :=
  ∃ step statement source rest, place = step :: rest ∧ tree.children[step]? = some statement ∧
    statement.kind = .importStatement ∧ statement.child? .source = some source ∧
    ImportBinds text statement (unquote (text source)) rest binding

variable {text} {tree statement part : Node}

theorem append_imports (first second : Outline) :
    (first ++ second).imports = first.imports ++ second.imports := rfl

theorem join_imports (outlines : List Outline) :
    (join outlines).imports = outlines.flatMap imports := rfl

/-- What a specifier between braces binds. -/
theorem specifierBinding_eq_some_iff {specifier : Node} {name : String} {isDefault : Bool} :
    (((specifier.child? .alias).or (specifier.child? .name)).map fun bound =>
        (text bound, (specifier.child? .name).any fun name => text name == "default")) =
        some (name, isDefault) ↔
      ∃ bound, (specifier.child? .alias = some bound ∨
          specifier.child? .alias = none ∧ specifier.child? .name = some bound) ∧
        text bound = name ∧
        (isDefault = true ↔
          ∃ imported, specifier.child? .name = some imported ∧ text imported = "default") := by
  have same : ((specifier.child? .name).any fun name => text name == "default") = isDefault ↔
      (isDefault = true ↔
        ∃ imported, specifier.child? .name = some imported ∧ text imported = "default") := by
    rw [Bool.eq_iff_iff, Option.any_eq_true]
    simp only [beq_iff_eq]
    exact iff_comm
  simp only [Option.map_eq_some_iff, Option.or_eq_some_iff, Prod.mk.injEq, same]

theorem clauseBindings_enumerates (text : Wording) (part : Node) :
    Enumerates (PartBinds text part) (clauseBindings text part) := by
  unfold clauseBindings
  split
  · next kind =>
    refine (Enumerates.single [] (text part, true)).congr fun place binding => ⟨?_, fun binds => ?_⟩
    · rintro ⟨rfl, rfl⟩
      exact .default kind
    · cases binds with
      | default => exact ⟨rfl, rfl⟩
      | space other => cases kind.symm.trans other
      | specifier other => cases kind.symm.trans other
  · next kind =>
    refine (Enumerates.ofOption [] _).congr fun place binding => ⟨?_, fun binds => ?_⟩
    · rintro ⟨rfl, named⟩
      obtain ⟨name, found, rfl⟩ := Option.map_eq_some_iff.mp named
      exact .space kind found
    · cases binds with
      | default other => cases kind.symm.trans other
      | space _ found => exact ⟨rfl, by rw [found]; rfl⟩
      | specifier other => cases kind.symm.trans other
  · next kind =>
    rw [List.filterMap_eq_flatMap_toList]
    refine .congr (.flatMap fun _ specifier _ => .ofOption [] _) fun place binding => ⟨?_, fun binds => ?_⟩
    · rintro ⟨step, specifier, _, rfl, listed, rfl, binds⟩
      split at binds
      · next imports =>
        obtain ⟨bound, named, same, isDefault⟩ := specifierBinding_eq_some_iff.mp binds
        obtain ⟨_, _⟩ := binding
        cases same
        exact .specifier kind listed (beq_iff_eq.mp imports) named isDefault
      · cases binds
    · cases binds with
      | default other => cases kind.symm.trans other
      | space other => cases kind.symm.trans other
      | @specifier step specifier bound _ _ listed imports named isDefault =>
        refine ⟨step, specifier, [], rfl, listed, rfl, ?_⟩
        rw [if_pos (beq_iff_eq.mpr imports)]
        exact specifierBinding_eq_some_iff.mpr ⟨bound, named, rfl, isDefault⟩
  · next plain spaces names =>
    refine .nil fun place binding binds => ?_
    cases binds with
    | default kind => exact plain kind
    | space kind => exact spaces kind
    | specifier kind => exact names kind

theorem importBindings_enumerates (text : Wording) (statement : Node) :
    Enumerates (StatementBinds text statement) (statement.children.flatMap (importBindings text)) := by
  have each (clause : Node) : Enumerates (fun rest binding =>
      (clause.kind = .importClause ∧ ∃ inner part below, rest = inner :: below ∧
        clause.children[inner]? = some part ∧ PartBinds text part below binding) ∨
      (clause.kind = .importRequireClause ∧ rest = [] ∧ ∃ name,
        clause.children.find? (·.kind == .identifier) = some name ∧ binding = (text name, true)))
      (importBindings text clause) := by
    unfold importBindings
    split
    · next kind =>
      refine (Enumerates.flatMap fun _ part _ => clauseBindings_enumerates text part).congr
        fun rest binding => ?_
      simp [kind]
    · next kind =>
      refine (Enumerates.ofOption [] _).congr fun rest binding => ?_
      simp [kind, eq_comm (a := binding)]
    · next plain required =>
      exact .nil fun rest binding binds => binds.elim (plain ·.1) (required ·.1)
  refine (Enumerates.flatMap fun _ clause _ => each clause).congr fun place binding => ⟨?_, fun binds => ?_⟩
  · rintro ⟨step, clause, _, rfl, listed, ⟨kind, inner, part, rest, rfl, listed', binds⟩ |
      ⟨kind, rfl, name, found, rfl⟩⟩
    · exact .clause listed kind listed' binds
    · exact .required listed kind found
  · cases binds with
    | clause listed kind listed' binds =>
      exact ⟨_, _, _, rfl, listed, .inl ⟨kind, _, _, _, rfl, listed', binds⟩⟩
    | required listed kind found => exact ⟨_, _, _, rfl, listed, .inr ⟨kind, rfl, _, found, rfl⟩⟩

theorem ofImport_enumerates (text : Wording) (statement : Node) :
    Enumerates (fun rest binding => ∃ source, statement.child? .source = some source ∧
      ImportBinds text statement (unquote (text source)) rest binding)
      (ofImport text statement).imports := by
  have names := importBindings_enumerates text statement
  unfold ofImport
  split
  · next bare => exact .nil fun _ _ ⟨source, found, _⟩ => nomatch bare.symm.trans found
  · next source found =>
    simp only [found, Option.some_inj, exists_eq_left']
    split
    · next none =>
      rw [none] at names
      have nothing := names.eq_nil_iff.mp rfl
      refine (Enumerates.single [] _).congr fun rest binding => ⟨?_, fun binds => ?_⟩
      · rintro ⟨rfl, rfl⟩
        exact .nothing nothing
      · cases binds with
        | name binds => exact absurd binds (nothing _ _)
        | nothing => exact ⟨rfl, rfl⟩
    · next some =>
      refine (names.map _).congr fun rest binding => ⟨?_, fun binds => ?_⟩
      · rintro ⟨⟨name, isDefault⟩, binds, rfl⟩
        exact .name binds
      · cases binds with
        | name binds => exact ⟨_, binds, rfl⟩
        | nothing nothing => exact absurd (names.eq_nil_iff.mpr nothing) some

theorem ofVariable_imports (exported : Bool) (node : Node) :
    (ofVariable text exported node).imports = [] := by
  unfold ofVariable
  dsimp only
  split <;> rfl

theorem ofMember_imports (owner : String) (exported : Bool) (member : Node) :
    (ofMember text owner exported member).imports = [] := by
  unfold ofMember
  split <;> rfl

theorem ofClass_imports (exported : Bool) (node : Node) :
    (ofClass text exported node).imports = [] := by
  unfold ofClass
  split
  · rfl
  · rw [append_imports, join_imports, List.flatMap_map, List.flatMap_eq_nil_iff.mpr]
    · rfl
    · exact fun member _ => ofMember_imports _ exported member

/-- Only import statements import. -/
theorem ofDeclaration_imports (exported : Bool) (node : Node) :
    (ofDeclaration text exported node).imports = [] := by
  refine ofDeclaration_cases (motive := fun outline => outline.imports = []) ?_ ?_ ?_ ?_ ?_
  · intro _
    split <;> rfl
  · exact fun _ => ofClass_imports exported node
  · intro _
    rw [join_imports, List.flatMap_map, List.flatMap_eq_nil_iff]
    exact fun declarator _ => ofVariable_imports exported declarator
  · exact fun _ _ _ => rfl
  · exact fun _ => rfl

theorem ofStatement_enumerates_imports (text : Wording) (statement : Node) :
    Enumerates (fun rest binding => statement.kind = .importStatement ∧
      ∃ source, statement.child? .source = some source ∧
        ImportBinds text statement (unquote (text source)) rest binding)
      (ofStatement text statement).imports := by
  have nothing (other : statement.kind ≠ .importStatement) : Enumerates (fun rest binding =>
      statement.kind = .importStatement ∧ ∃ source, statement.child? .source = some source ∧
        ImportBinds text statement (unquote (text source)) rest binding) [] :=
    .nil fun _ _ ⟨imports, _⟩ => other imports
  unfold ofStatement
  split
  · next kind =>
    exact (ofImport_enumerates text statement).congr fun _ _ => (and_iff_right kind).symm
  · next kind =>
    have other : statement.kind ≠ .importStatement := by simp [kind]
    split
    · rw [ofDeclaration_imports]
      exact nothing other
    · exact nothing other
  · next other _ =>
    rw [ofDeclaration_imports]
    exact nothing other

theorem ofTree_enumerates_imports (text : Wording) (tree : Node) :
    Enumerates (IsImported text tree) (ofTree text tree).imports := by
  unfold ofTree
  rw [join_imports, List.flatMap_map]
  refine (Enumerates.flatMap fun _ statement _ =>
    ofStatement_enumerates_imports text statement).congr fun place binding => ⟨?_, ?_⟩
  · rintro ⟨step, statement, rest, rfl, listed, kind, source, found, binds⟩
    exact ⟨step, statement, source, rest, rfl, listed, kind, found, binds⟩
  · rintro ⟨step, statement, source, rest, rfl, listed, kind, found, binds⟩
    exact ⟨step, statement, rest, rfl, listed, kind, source, found, binds⟩

section Complete

/-- No name in the clauses of a statement goes unbound, so that nothing is bound only where there is no
clause or no name between its braces. -/
structure BindsAllNames (text : Wording) (statement : Node) : Prop where
  parts : ∀ {step inner : Nat} {clause part : Node}, statement.children[step]? = some clause →
    clause.kind = .importClause → clause.children[inner]? = some part →
    (part.kind = .identifier ∨ part.kind = .namespaceImport) ∧
        (∃ binding, StatementBinds text statement [step, inner] binding) ∨
      part.kind = .namedImports ∧ ∀ last < part.children.length,
        ∃ binding, StatementBinds text statement [step, inner, last] binding
  nothing : (∀ rest binding, ¬StatementBinds text statement rest binding) ↔
    ∀ clause ∈ statement.children, clause.kind = .importClause →
      ∀ part ∈ clause.children, part.kind = .namedImports ∧ part.children = []

theorem exists_specifierBinds {specifier imported : Node} {last : Nat} (text : Wording)
    (kind : part.kind = .namedImports) (listed : part.children[last]? = some specifier)
    (imports : specifier.kind = .importSpecifier) (named : specifier.child? .name = some imported) :
    ∃ binding, PartBinds text part [last] binding := by
  have isDefault : decide (text imported = "default") = true ↔
      ∃ imported, specifier.child? .name = some imported ∧ text imported = "default" := by
    rw [decide_eq_true_iff]
    simp [named]
  cases renamed : specifier.child? .alias with
  | none => exact ⟨_, .specifier kind listed imports (.inr ⟨renamed, named⟩) isDefault⟩
  | some bound => exact ⟨_, .specifier kind listed imports (.inl renamed) isDefault⟩

theorem exists_partBinds (text : Wording) (holds : IsImportPart part) :
    (part.kind = .identifier ∨ part.kind = .namespaceImport) ∧
        (∃ binding, PartBinds text part [] binding) ∨
      part.kind = .namedImports ∧ ∀ last < part.children.length,
        ∃ binding, PartBinds text part [last] binding := by
  cases holds with
  | default kind => exact .inl ⟨.inl kind, _, .default kind⟩
  | @space name kind listed word =>
    have some : (part.children.find? (·.kind == .identifier)).isSome :=
      List.find?_isSome.mpr ⟨name, listed, beq_iff_eq.mpr word⟩
    obtain ⟨found, isFirst⟩ := Option.isSome_iff_exists.mp some
    exact .inl ⟨.inr kind, _, .space kind isFirst⟩
  | names kind specifiers =>
    refine .inr ⟨kind, fun last bound => ?_⟩
    obtain ⟨imports, imported, named⟩ := specifiers _ (List.getElem_mem bound)
    exact exists_specifierBinds text kind (List.getElem?_eq_getElem bound) imports named

theorem bindsAllNames (text : Wording)
    (required : ∀ clause ∈ statement.children, clause.kind ≠ .importRequireClause)
    (clauses : ∀ clause ∈ statement.children, clause.kind = .importClause → IsImportClause clause) :
    BindsAllNames text statement := by
  have parts {step inner : Nat} {clause part : Node} (listed : statement.children[step]? = some clause)
      (kind : clause.kind = .importClause) (listed' : clause.children[inner]? = some part) :
      (part.kind = .identifier ∨ part.kind = .namespaceImport) ∧
          (∃ binding, StatementBinds text statement [step, inner] binding) ∨
        part.kind = .namedImports ∧ ∀ last < part.children.length,
          ∃ binding, StatementBinds text statement [step, inner, last] binding := by
    have holds := (clauses clause (List.mem_of_getElem? listed) kind).2 part (List.mem_of_getElem? listed')
    have lift {rest : Address} (binds : ∃ binding, PartBinds text part rest binding) :
        ∃ binding, StatementBinds text statement (step :: inner :: rest) binding := by
      obtain ⟨binding, binds⟩ := binds
      exact ⟨binding, .clause listed kind listed' binds⟩
    exact (exists_partBinds text holds).imp (And.imp_right lift) (And.imp_right fun each last bound =>
      lift (each last bound))
  refine ⟨parts, fun nothing clause member kind part member' => ?_, fun empty rest binding binds => ?_⟩
  · obtain ⟨step, listed⟩ := List.mem_iff_getElem?.mp member
    obtain ⟨inner, listed'⟩ := List.mem_iff_getElem?.mp member'
    rcases parts listed kind listed' with ⟨_, binding, binds⟩ | ⟨names, each⟩
    · exact absurd binds (nothing _ binding)
    · refine ⟨names, List.eq_nil_iff_length_eq_zero.mpr (Nat.eq_zero_of_not_pos fun some => ?_)⟩
      obtain ⟨binding, binds⟩ := each 0 some
      exact nothing _ binding binds
  · cases binds with
    | required listed kind => exact required _ (List.mem_of_getElem? listed) kind
    | clause listed kind listed' binds =>
      obtain ⟨names, none⟩ := empty _ (List.mem_of_getElem? listed) kind _ (List.mem_of_getElem? listed')
      cases binds with
      | default other => cases names.symm.trans other
      | space other => cases names.symm.trans other
      | specifier _ listed'' =>
        rw [none] at listed''
        cases listed''

/-- In a source that the grammar accepts, the imports that name a module leave no name out. -/
theorem bindsAllNames_of_parse {dialect : Dialect} {source : String} {module : Node} (text : Wording)
    (read : Script.parse dialect source = .ok tree) (listed : statement ∈ tree.children)
    (kind : statement.kind = .importStatement) (found : statement.child? .source = some module) :
    BindsAllNames text statement := by
  rcases ((statements_of_parse read).2 statement listed).2.1 kind with bare | parts
  · unfold Node.child? at found
    have names : module.role = some .source := beq_iff_eq.mp (List.find?_some found :)
    exact absurd names (bare module (List.mem_of_find?_eq_some found))
  · exact bindsAllNames text (fun clause member => (parts clause member).1)
      fun clause member => (parts clause member).2

end Complete

/-- The imports in the outline of a file are those of its top-level import statements that name a module,
one for each name that a statement binds, in the order of the source. Where the grammar accepts the
source, that is one for each default, name space and specifier. -/
theorem imports_enumerated (text : Wording) (tree : Node) :
    Enumerates (IsImported text tree) (ofTree text tree).imports ∧
      ∀ dialect source, Script.parse dialect source = .ok tree →
        ∀ statement ∈ tree.children, statement.kind = .importStatement →
          ∀ module, statement.child? .source = some module → BindsAllNames text statement :=
  ⟨ofTree_enumerates_imports text tree, fun _ _ read _ listed kind _ found =>
    bindsAllNames_of_parse text read listed kind found⟩

theorem imports_enumerated_clauses :
    let source := "import a, { b, c as d, default as e } from \x22m\x22;\nimport {} from \x22n\x22;"
    let text : Wording := fun node => node.span.textIn source.toList.toArray
    ∃ tree, Script.parse .javascript source = .ok tree ∧
      Enumerates (IsImported text tree) [⟨"a", "m", true⟩, ⟨"b", "m", false⟩, ⟨"d", "m", false⟩,
        ⟨"e", "m", true⟩, ⟨"*", "n", false⟩] ∧
      ∀ statement ∈ tree.children, statement.kind = .importStatement →
        ∀ module, statement.child? .source = some module → BindsAllNames text statement := by
  intro source text
  have found : (Script.parse .javascript source).toOption.map (fun tree => (ofTree text tree).imports) =
      some [⟨"a", "m", true⟩, ⟨"b", "m", false⟩, ⟨"d", "m", false⟩, ⟨"e", "m", true⟩,
        ⟨"*", "n", false⟩] := by decide +kernel
  obtain ⟨tree, read, _, listed⟩ := exists_isProgram found
  obtain ⟨all, complete⟩ := imports_enumerated text tree
  rw [listed] at all
  exact ⟨tree, read, all, complete .javascript source read⟩

end CodeAtlas.Outline
