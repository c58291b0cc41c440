import CodeAtlas.Script.Module
import CodeAtlas.Proofs.Script.Yields

namespace CodeAtlas.Script

open Reader

/-- A part of an import clause has the names that it should have. -/
inductive IsImportPart (part : Node) : Prop
  | default : part.kind = .identifier → IsImportPart part
  | space {name : Node} :
      part.kind = .namespaceImport → name ∈ part.children → name.kind = .identifier → IsImportPart part
  | names :
      part.kind = .namedImports →
      (∀ specifier ∈ part.children, specifier.kind = .importSpecifier ∧
        ∃ imported, specifier.child? .name = some imported) →
      IsImportPart part

def IsImportClause (clause : Node) : Prop :=
  clause.children ≠ [] ∧ ∀ part ∈ clause.children, IsImportPart part

/-- The parts of an import: they name no module, or what they bind stands in clauses. -/
def AreImportParts (parts : List Node) : Prop :=
  (∀ part ∈ parts, part.role ≠ some .source) ∨
    ∀ part ∈ parts, part.kind ≠ .importRequireClause ∧ (part.kind = .importClause → IsImportClause part)

variable (g : Grammar)

theorem wordNode_yields (kind : Kind) : Yields (wordNode kind) fun node => node.kind = kind :=
  .nodeOf fun _ _ => rfl

theorem importSpecifier_yields : Yields Grammar.importSpecifier fun specifier =>
    specifier.kind = .importSpecifier ∧ ∃ imported, specifier.child? .name = some imported := by
  have plain : Yields Grammar.importSpecifier.plain fun found =>
      ∃ imported rest, found = imported :: rest ∧ imported.role = some .name := by
    refine .after fun imported => .after fun _ => ?_
    extract_lets rest
    have named (found : List Node) (named : ∃ others, found = imported.withRole .name :: others) :
        Yields (rest found) fun found =>
          ∃ imported rest, found = imported :: rest ∧ imported.role = some .name := by
      obtain ⟨others, rfl⟩ := named
      exact .after fun _ => .after fun _ => .ite (fun _ => .pure ⟨_, others, rfl, rfl⟩) fun _ => .fail
    refine .ite (fun _ => .after fun _ => .bind (.pure ⟨_, rfl⟩) named) fun _ => ?_
    exact .ite (fun _ => .bind (.pure ⟨_, rfl⟩) named) fun _ => .bind .fail named
  refine .node (.orElse (.after fun _ => plain) plain) ?_
  rintro span _ ⟨imported, rest, rfl, named⟩
  refine ⟨rfl, imported, ?_⟩
  exact List.find?_cons_of_pos (beq_iff_eq.mpr named)

theorem namespaceImport_yields : Yields Grammar.namespaceImport IsImportPart := by
  refine .node (R := fun found => ∃ name, found = [name] ∧ name.kind = .identifier) ?_ ?_
  · exact .after fun _ => .after fun _ => .bind (wordNode_yields .identifier) fun name kind =>
      .pure ⟨name, rfl, kind⟩
  · rintro span _ ⟨name, rfl, kind⟩
    exact .space rfl (List.mem_singleton_self name) kind

theorem namedImports_yields : Yields g.namedImports IsImportPart :=
  .node (.after fun _ => .items g _ _ importSpecifier_yields) fun _ _ specifiers => .names rfl specifiers

theorem importClause_yields :
    Yields g.importClause fun clause => clause.kind = .importClause ∧ IsImportClause clause := by
  have named {reader : Reader Node} (before : List Node) (parts : ∀ part ∈ before, IsImportPart part)
      (last : Yields reader IsImportPart) :
      Yields (do return before ++ [← reader]) fun found =>
        found ≠ [] ∧ ∀ part ∈ found, IsImportPart part := by
    refine .bind last fun part holds => .pure ⟨by simp, ?_⟩
    exact List.forall_mem_append.mpr ⟨parts, List.forall_mem_singleton.mpr holds⟩
  have nothing : ∀ part ∈ ([] : List Node), IsImportPart part := fun _ member => nomatch member
  refine .node (P := fun clause => clause.kind = .importClause ∧ IsImportClause clause)
    (R := fun found => found ≠ [] ∧ ∀ part ∈ found, IsImportPart part) ?_ fun _ _ parts => ⟨rfl, parts⟩
  refine .after fun _ => .ite (fun _ => named [] nothing namespaceImport_yields) fun _ => ?_
  refine .after fun _ => .ite (fun _ => named [] nothing (namedImports_yields g)) fun _ => ?_
  refine .bind (wordNode_yields .identifier) fun name kind => ?_
  have first : ∀ part ∈ [name], IsImportPart part := List.forall_mem_singleton.mpr (.default kind)
  refine .after fun _ => .ite (fun _ => .after fun _ => ?_) fun _ => .pure ⟨List.cons_ne_nil _ _, first⟩
  refine .ite (fun _ => named [name] first namespaceImport_yields) fun _ => ?_
  exact named [name] first (namedImports_yields g)

/-- An object that tells more about a module names none. -/
def IsAttribute (part : Node) : Prop := part.role = none ∧ part.kind = .object

theorem importAttributes_yields :
    Yields g.importAttributes fun found => ∀ part ∈ found, IsAttribute part := by
  refine .after fun _ => .after fun _ => .ite (fun _ => ?_) fun _ => .pure fun _ member => nomatch member
  refine .bind (P := IsAttribute) (.nodeOf fun _ _ => ⟨rfl, rfl⟩) fun part holds => .pure ?_
  exact List.forall_mem_singleton.mpr holds

theorem AreImportParts.append {parts attributes : List Node} (holds : AreImportParts parts)
    (more : ∀ part ∈ attributes, IsAttribute part) : AreImportParts (parts ++ attributes) := by
  rcases holds with bare | clauses
  · refine .inl (List.forall_mem_append.mpr ⟨bare, fun part member => ?_⟩)
    rw [(more part member).1]
    nofun
  · refine .inr (List.forall_mem_append.mpr ⟨clauses, fun part member => ?_⟩)
    rw [(more part member).2]
    exact ⟨nofun, nofun⟩

theorem fromClause_isString : Yields Grammar.fromClause fun node => node.kind = .string :=
  .after fun _ => .bind (P := fun node => node.kind = .string) (.nodeOf fun _ _ => rfl) fun _ kind =>
    .pure kind

theorem importRule_bare_yields : Yields Grammar.importRule.bare AreImportParts := by
  refine .bind (P := fun node => node.kind = .string) (.nodeOf fun _ _ => rfl) fun source kind => .pure ?_
  refine .inr (List.forall_mem_singleton.mpr ?_)
  rw [show (source.withRole .source).kind = .string from kind]
  exact ⟨nofun, nofun⟩

theorem importRule_clause_yields : Yields (Grammar.importRule.clause g) AreImportParts := by
  have bindings : Yields (do let names ← g.importClause; return [names, ← Grammar.fromClause])
      AreImportParts := by
    refine .bind (importClause_yields g) fun clause holds => ?_
    refine .bind fromClause_isString fun source kind => .pure (.inr ?_)
    refine List.forall_mem_cons.mpr ⟨?_, List.forall_mem_singleton.mpr ?_⟩
    · rw [holds.1]
      exact ⟨nofun, fun _ => holds.2⟩
    · rw [kind]
      exact ⟨nofun, nofun⟩
  have required : Yields Grammar.importRule.required AreImportParts := by
    refine .bind (P := fun node => node.role = none) (.nodeOf fun _ _ => rfl) fun clause free => .pure ?_
    refine .inl (List.forall_mem_singleton.mpr ?_)
    rw [free]
    nofun
  have renamed : Yields (Grammar.importRule.renamed g) AreImportParts := by
    refine .after fun _ => .after fun _ => .after fun _ => .after fun _ => .pure ?_
    exact .inl fun _ member => nomatch member
  exact .ite (fun _ => .orElse bindings (.orElse required renamed)) fun _ => bindings

/-- An import statement, or a name that is imported under another one. -/
def IsImport (node : Node) : Prop :=
  (node.kind = .importAlias ∨ node.kind = .importStatement) ∧ AreImportParts node.children

theorem importRule_isImport : Yields g.importRule IsImport := by
  refine .after fun _ => .after fun start => .after fun _ => .after fun _ => .after fun _ => ?_
  extract_lets rest
  have finished (found : List Node) (parts : AreImportParts found) : Yields (rest found) IsImport := by
    refine .after fun _ => ?_
    extract_lets last
    have ended (attributes : List Node) (more : ∀ part ∈ attributes, IsAttribute part) :
        Yields (last attributes) IsImport := by
      refine .after fun _ => .nodeFrom fun _ => ⟨?_, parts.append more⟩
      change (if _ then _ else _) = _ ∨ (if _ then _ else _) = _
      split
      · exact .inl rfl
      · exact .inr rfl
    refine .ite (fun _ => .bind (.pure fun _ member => nomatch member) ended) fun _ => ?_
    exact .bind (importAttributes_yields g) ended
  have clause := importRule_clause_yields g
  refine .ite (fun _ => .bind importRule_bare_yields finished) fun _ => ?_
  exact .ite (fun _ => .bind (.orElse (.after fun _ => clause) clause) finished) fun _ => .bind clause finished

end CodeAtlas.Script
