import CodeAtlas.Proofs.Outline.Calls
import CodeAtlas.Proofs.Outline.Symbols
import CodeAtlas.Proofs.Script.Placed

namespace CodeAtlas.Outline

open Script

/-- The symbols of a class and of a method in it. -/
structure HasMethod (owner method : Declared) : Prop where
  ownerKind : owner.kind = .classDecl
  kind : method.kind = .function
  name : ∃ own, method.name = owner.name ++ "." ++ own
  firstLine : owner.firstLine ≤ method.firstLine
  lastLine : method.lastLine ≤ owner.lastLine
  exported : method.exported = owner.exported

variable {text : Wording} {tree node : Node} {start place : Address} {symbol : Declared}

theorem IsSymbol.exists_node (holds : IsSymbol text tree place symbol) :
    ∃ node, tree.at? place = some node ∧ symbol.firstLine = node.firstRow + 1 := by
  obtain ⟨start, node, rest, top, rfl, _, name, kind, declaring, _, here, same⟩ := holds
  refine ⟨declaring, (Node.at?_of_at? top.at?_eq rest).trans here, ?_⟩
  rw [same]
  rfl

/-- A symbol is exported if an export statement has its declaration, or that of the class it is in. -/
theorem IsSymbol.exported_iff (holds : IsSymbol text tree place symbol) :
    symbol.exported = true ↔ ∃ start, IsExportedDeclaration tree start ∧ start <+: place := by
  obtain ⟨start, node, rest, top, rfl, decided, _⟩ := holds
  rw [decided]
  constructor
  · exact fun exports => ⟨start, exports, List.prefix_append start rest⟩
  · rintro ⟨_, ⟨step, inner, statement, rfl, listed, kind, placed⟩, within⟩
    obtain ⟨declaration, listed'⟩ := Node.exists_of_place? placed
    have top' : IsTopLevel tree [step, inner] declaration := .exported listed kind placed listed'
    obtain ⟨rfl, _⟩ := top'.unique top within (List.prefix_append start rest)
    exact ⟨step, inner, statement, rfl, listed, kind, placed⟩

/-- What is declared inside a top-level class is a method of it, and the class is a symbol too. -/
theorem IsSymbol.exists_hasMethod (holds : IsSymbol text tree place symbol) (placed : tree.IsPlaced)
    (top : IsTopLevel tree start node) (sort : sortOf node.kind = .classDecl)
    (inside : start.Encloses place) :
    ∃ owner, IsSymbol text tree start owner ∧ HasMethod owner symbol := by
  obtain ⟨start', node', rest, top', rfl, decided, name, kind, declaring, declares, here, same⟩ := holds
  obtain ⟨rfl, rfl⟩ := top.unique top' inside.1 (List.prefix_append start' rest)
  obtain ⟨owner, owned, ⟨rfl, _⟩ | ⟨step, inner, member, own, rfl, _, rfl, rfl⟩⟩ :=
    (declares_class_iff sort).mp declares
  · exact absurd (List.append_nil start).symm inside.2
  · refine ⟨declared owner .classDecl symbol.exported node, ?_, ?_⟩
    · exact ⟨start, node, [], top, (List.append_nil start).symm, decided, owner, .classDecl, node,
        .named (namedKind?_classDecl sort) owned, rfl, rfl⟩
    · obtain ⟨starts, stops⟩ := (placed.at? top.at?_eq).rows_within here
      rw [same]
      exact ⟨rfl, rfl, ⟨own, rfl⟩, Nat.succ_le_succ starts, Nat.succ_le_succ stops, rfl⟩

/-- What is in a statement stands before all that is in a later one. -/
theorem lt_of_later {step step' : Nat} {rest : Address} (within : start <+: place)
    (first : start.head? = some step) (later : step < step') : place < step' :: rest := by
  obtain ⟨below, rfl⟩ := within
  cases start with
  | nil => cases first
  | cons head tail =>
    obtain rfl := Option.some.inj first
    exact List.cons_lt_cons_iff.mpr (.inl later)

theorem calls_pairwise_lines (text : Wording) (program : IsProgram tree) (placed : tree.IsPlaced) :
    (ofTree text tree).calls.Pairwise fun first second => first.line ≤ second.line := by
  obtain ⟨listing, listed, _⟩ := ofTree_areCalls text program
  rw [← listed.calls_eq]
  refine placed.pairwise_lines listed.ordered fun item member => ?_
  obtain ⟨node, _, here, _, _, line⟩ := listed.tells item member
  exact ⟨node, here, line⟩

/-- Extraction keeps the order and the nesting of the source. The symbols, which are what the top-level
statements declare, and the calls come in the order of the lines they begin in; a method comes after its
class and before all that a later statement declares; and what is exported is what an export statement
declares. What is not known of all trees, but of those of sources, only the calls need: that what a class
extends stands before its members. -/
theorem outline_in_order (text : Wording) (placed : tree.IsPlaced) :
    (∀ symbol ∈ (ofTree text tree).symbols, symbol.firstLine ≤ symbol.lastLine) ∧
      ((ofTree text tree).symbols.Pairwise fun first second => first.firstLine ≤ second.firstLine) ∧
      (IsProgram tree →
        (ofTree text tree).calls.Pairwise fun first second => first.line ≤ second.line) ∧
      ∃ listing : List (Address × Declared), listing.map (·.2) = (ofTree text tree).symbols ∧
        (listing.map (·.1)).Pairwise (· < ·) ∧
        (∀ item, item ∈ listing ↔ IsSymbol text tree item.1 item.2) ∧
        (∀ item ∈ listing, item.2.exported = true ↔
          ∃ start, IsExportedDeclaration tree start ∧ start <+: item.1) ∧
        ∀ (i : Nat) place method, listing[i]? = some (place, method) → ∀ start node,
          IsTopLevel tree start node → sortOf node.kind = .classDecl → start.Encloses place →
          (∃ j owner, j < i ∧ listing[j]? = some (start, owner) ∧ HasMethod owner method) ∧
            ∀ (k step step' : Nat) rest later, start.head? = some step → step < step' →
              listing[k]? = some (step' :: rest, later) → i < k := by
  obtain ⟨listing, symbols_eq, ordered, mem_iff⟩ := ofTree_enumerates text tree
  refine ⟨ofTree_isOrdered text tree, ?_, fun program => calls_pairwise_lines text program
    placed, listing, symbols_eq, ordered, mem_iff, fun item member =>
      ((mem_iff item).mp member).exported_iff, ?_⟩
  · rw [← symbols_eq]
    exact placed.pairwise_lines ordered fun item member => ((mem_iff item).mp member).exists_node
  · intro i place method listed start node top sort inside
    have holds := (mem_iff (place, method)).mp (List.mem_of_getElem? listed)
    constructor
    · obtain ⟨owner, isOwner, owns⟩ := holds.exists_hasMethod placed top sort inside
      obtain ⟨j, listed'⟩ := List.mem_iff_getElem?.mp ((mem_iff (start, owner)).mpr isOwner)
      exact ⟨j, owner, index_lt_of_lt ordered listed' listed inside.lt, listed', owns⟩
    · intro k step step' rest later first after listed'
      exact index_lt_of_lt ordered listed listed' (lt_of_later inside.1 first after)

theorem outline_in_order_class :
    let source := "export class A extends f() \x7b\n  m() { g(); }\n\x7d\nconst h = () => g();\n"
    let text : Wording := fun node => node.span.textIn source.toList.toArray
    ∃ tree, Script.parse .javascript source = .ok tree ∧ tree.IsPlaced ∧
      (ofTree text tree).symbols = [⟨"A", .classDecl, 1, 3, true⟩, ⟨"A.m", .function, 2, 2, true⟩,
        ⟨"h", .function, 4, 4, false⟩] ∧
      (ofTree text tree).calls.map (·.line) = [1, 2, 4] ∧
      (ofTree text tree).calls.Pairwise fun first second => first.line ≤ second.line := by
  intro source text
  have found : (Script.parse .javascript source).toOption.map (fun tree =>
      (decide tree.IsPlaced, (ofTree text tree).symbols, (ofTree text tree).calls.map (·.line))) =
      some (true, [⟨"A", .classDecl, 1, 3, true⟩, ⟨"A.m", .function, 2, 2, true⟩,
        ⟨"h", .function, 4, 4, false⟩], [1, 2, 4]) := by decide +kernel
  obtain ⟨tree, read, program, facts⟩ := exists_isProgram found
  obtain ⟨placed, symbols, lines⟩ : _ ∧ _ ∧ _ := by simpa only [Prod.mk.injEq] using facts
  have isPlaced : tree.IsPlaced := of_decide_eq_true placed
  obtain ⟨_, _, calls, _⟩ := outline_in_order text isPlaced
  exact ⟨tree, read, isPlaced, symbols, lines, calls program⟩

end CodeAtlas.Outline
