import CodeAtlas.Outline.Source
import CodeAtlas.Proofs.Outline.Declarations
import CodeAtlas.Proofs.Script.Enumerated

namespace CodeAtlas.Outline

open Script

/-- The value of a variable is a function. -/
def HoldsFunction (declarator : Node) : Prop :=
  ∃ value, declarator.child? .value = some value ∧ isFunctionValue value.kind = true

/-- What a variable is declared as: a function, if its value is one. -/
def IsKindOf (declarator : Node) (kind : SymbolKind) : Prop :=
  kind = .function ∧ HoldsFunction declarator ∨ kind = .variableDecl ∧ ¬HoldsFunction declarator

variable (text : Wording)

/-- The member of a class at a place in its body is a method with a name. -/
structure IsNamedMethod (node : Node) (step inner : Nat) (member : Node) (own : String) : Prop where
  body : node.place? .body = some step
  found : node.at? [step, inner] = some member
  kind : member.kind = .methodDefinition
  named : name? text member = some own

/-- A top-level statement declares something under a name, at a place in it. -/
inductive Declares (node : Node) : Address → String → SymbolKind → Prop
  /-- A function, a class or a type. -/
  | named {name : String} {kind : SymbolKind} :
      namedKind? node.kind = some kind → name? text node = some name → Declares node [] name kind
  | method {step inner : Nat} {member : Node} {owner own : String} :
      sortOf node.kind = .classDecl → name? text node = some owner →
      IsNamedMethod text node step inner member own →
      Declares node [step, inner] (owner ++ "." ++ own) .function
  | bound {step : Nat} {declarator : Node} {name : String} {kind : SymbolKind} :
      sortOf node.kind = .variables → node.children[step]? = some declarator →
      declarator.kind = .variableDeclarator → variableName? text declarator = some name →
      IsKindOf declarator kind → Declares node [step] name kind

/-- The symbols of a top-level statement that is exported or is not. -/
def IsSymbolIn (node : Node) (exported : Bool) (rest : Address) (symbol : Declared) : Prop :=
  ∃ name kind declaring, Declares text node rest name kind ∧ node.at? rest = some declaring ∧
    symbol = declared name kind exported declaring

/-- The address is that of the declaration in a top-level export statement. -/
def IsExportedDeclaration (tree : Node) (start : Address) : Prop :=
  ∃ step inner statement, start = [step, inner] ∧ tree.children[step]? = some statement ∧
    statement.kind = .exportStatement ∧ statement.place? .declaration = some inner

/-- The symbols of a file: what its top-level statements declare. -/
def IsSymbol (tree : Node) (place : Address) (symbol : Declared) : Prop :=
  ∃ start node rest, IsTopLevel tree start node ∧ place = start ++ rest ∧
    (symbol.exported = true ↔ IsExportedDeclaration tree start) ∧
    IsSymbolIn text node symbol.exported rest symbol

variable {text} {tree node : Node} {rest : Address} {name : String} {kind : SymbolKind} {exported : Bool}

theorem append_symbols (first second : Outline) :
    (first ++ second).symbols = first.symbols ++ second.symbols := rfl

theorem join_symbols (outlines : List Outline) :
    (join outlines).symbols = outlines.flatMap symbols := rfl

theorem namedKind?_function (sort : sortOf node.kind = .function) :
    namedKind? node.kind = some .function := by
  rcases sortOf_eq_function_iff.mp sort with kind | kind <;> rw [kind] <;> rfl

theorem namedKind?_classDecl (sort : sortOf node.kind = .classDecl) :
    namedKind? node.kind = some .classDecl := by
  cases kind : node.kind <;> rw [kind] at sort <;> first | rfl | cases sort

theorem namedKind?_eq_none (sort : sortOf node.kind = .variables ∨ sortOf node.kind = .other) :
    namedKind? node.kind = none := by
  cases kind : node.kind <;> rw [kind] at sort <;> first | rfl | simp [sortOf] at sort

/-- A declaration that is neither a class nor declares variables is a symbol itself, if any. -/
theorem declares_iff_of_sort (notClass : sortOf node.kind ≠ .classDecl)
    (notVariables : sortOf node.kind ≠ .variables) :
    Declares text node rest name kind ↔
      rest = [] ∧ namedKind? node.kind = some kind ∧ name? text node = some name := by
  constructor
  · intro declares
    cases declares with
    | named own named => exact ⟨rfl, own, named⟩
    | method sort => exact absurd sort notClass
    | bound sort => exact absurd sort notVariables
  · rintro ⟨rfl, own, named⟩
    exact .named own named

/-- A class declares itself and its methods, if it has a name. -/
theorem declares_class_iff (sort : sortOf node.kind = .classDecl) :
    Declares text node rest name kind ↔ ∃ owner, name? text node = some owner ∧
      (rest = [] ∧ name = owner ∧ kind = .classDecl ∨
        ∃ step inner member own, rest = [step, inner] ∧ IsNamedMethod text node step inner member own ∧
          name = owner ++ "." ++ own ∧ kind = .function) := by
  constructor
  · intro declares
    cases declares with
    | named own named =>
      obtain rfl := Option.some.inj (own.symm.trans (namedKind?_classDecl sort))
      exact ⟨name, named, .inl ⟨rfl, rfl, rfl⟩⟩
    | method _ owned method => exact ⟨_, owned, .inr ⟨_, _, _, _, rfl, method, rfl, rfl⟩⟩
    | bound other => cases sort.symm.trans other
  · rintro ⟨owner, owned, ⟨rfl, rfl, rfl⟩ | ⟨step, inner, member, own, rfl, method, rfl, rfl⟩⟩
    · exact .named (namedKind?_classDecl sort) owned
    · exact .method sort owned method

theorem declares_variables_iff (sort : sortOf node.kind = .variables) :
    Declares text node rest name kind ↔ ∃ step declarator, rest = [step] ∧
      node.children[step]? = some declarator ∧ declarator.kind = .variableDeclarator ∧
      variableName? text declarator = some name ∧ IsKindOf declarator kind := by
  constructor
  · intro declares
    cases declares with
    | named own => cases (namedKind?_eq_none (.inl sort)).symm.trans own
    | method other => cases sort.symm.trans other
    | bound _ listed declares named holds => exact ⟨_, _, rfl, listed, declares, named, holds⟩
  · rintro ⟨step, declarator, rfl, listed, declares, named, holds⟩
    exact .bound sort listed declares named holds

/-- A declaration whose own symbol is the only one it may have. -/
theorem whole_enumerates (text : Wording) (exported : Bool) (node : Node)
    (notClass : sortOf node.kind ≠ .classDecl) (notVariables : sortOf node.kind ≠ .variables) :
    Enumerates (IsSymbolIn text node exported)
      (((namedKind? node.kind).bind fun kind =>
        (name? text node).map fun name => declared name kind exported node).toList) := by
  refine (Enumerates.ofOption [] _).congr fun rest symbol => ?_
  simp only [IsSymbolIn, declares_iff_of_sort notClass notVariables, Option.bind_eq_some_iff,
    Option.map_eq_some_iff]
  constructor
  · rintro ⟨rfl, kind, own, name, named, rfl⟩
    exact ⟨name, kind, node, ⟨rfl, own, named⟩, rfl, rfl⟩
  · rintro ⟨name, kind, declaring, ⟨rfl, own, named⟩, here, rfl⟩
    obtain rfl := Option.some.inj here
    exact ⟨rfl, kind, own, name, named, rfl⟩

theorem ofMember_enumerates (text : Wording) (owner : String) (exported : Bool) (member : Node) :
    Enumerates (fun rest symbol => rest = [] ∧ member.kind = .methodDefinition ∧
      ∃ own, name? text member = some own ∧
        symbol = declared (owner ++ "." ++ own) .function exported member)
      (ofMember text owner exported member).symbols := by
  unfold ofMember
  split
  · next own method =>
    obtain ⟨kind, owned⟩ := Option.ite_none_right_eq_some.mp method
    refine (Enumerates.single [] _).congr fun rest symbol => ?_
    simp [beq_iff_eq.mp kind, owned]
  · next none =>
    refine .nil fun rest symbol ⟨_, kind, own, owned, _⟩ => ?_
    rw [if_pos (beq_iff_eq.mpr kind), owned] at none
    cases none

theorem members_enumerates (text : Wording) (owner : String) (exported : Bool) (node : Node) :
    Enumerates (fun rest symbol => ∃ step inner member own, rest = [step, inner] ∧
      IsNamedMethod text node step inner member own ∧
      symbol = declared (owner ++ "." ++ own) .function exported member)
      ((((node.child? .body).map Node.children).getD []).flatMap fun member =>
        (ofMember text owner exported member).symbols) := by
  cases found : node.child? .body with
  | none =>
    refine .nil fun rest symbol ⟨step, inner, _, _, _, method, _⟩ => ?_
    obtain ⟨body, listed, _⟩ := Node.exists_child_of_at? method.found
    cases found.symm.trans (Node.child?_eq_some_iff.mpr ⟨step, method.body, listed⟩)
  | some body =>
    obtain ⟨step, isBody, listed⟩ := Node.child?_eq_some_iff.mp found
    refine .congr (.under step (.flatMap fun _ member _ => ofMember_enumerates text owner exported member))
      fun rest symbol => ⟨?_, ?_⟩
    · rintro ⟨_, rfl, inner, member, _, rfl, inBody, rfl, kind, own, named, rfl⟩
      exact ⟨step, inner, member, own, rfl, ⟨isBody, Node.at?_grandchild listed inBody, kind, named⟩, rfl⟩
    · rintro ⟨step', inner, member, own, rfl, method, rfl⟩
      obtain rfl := Option.some.inj (isBody.symm.trans method.body)
      obtain ⟨body', listed', within⟩ := Node.exists_child_of_at? method.found
      obtain rfl := Option.some.inj (listed.symm.trans listed')
      rw [Node.at?_singleton] at within
      exact ⟨_, rfl, inner, member, [], rfl, within, rfl, method.kind, own, method.named, rfl⟩

theorem ofClass_enumerates (sort : sortOf node.kind = .classDecl) (text : Wording) (exported : Bool) :
    Enumerates (IsSymbolIn text node exported) (ofClass text exported node).symbols := by
  unfold ofClass
  split
  · next nameless =>
    refine .nil fun rest symbol ⟨name, kind, _, declares, _⟩ => ?_
    obtain ⟨owner, owned, _⟩ := (declares_class_iff sort).mp declares
    cases nameless.symm.trans owned
  · next owner owned =>
    rw [append_symbols, join_symbols, List.flatMap_map]
    have own := Enumerates.single [] (declared owner .classDecl exported node)
    refine (own.append (members_enumerates text owner exported node) ?_).congr fun rest symbol => ?_
    · rintro _ _ _ _ ⟨rfl, rfl⟩ ⟨step, inner, _, _, rfl, _⟩
      exact List.nil_lt_cons _ _
    simp only [IsSymbolIn, declares_class_iff sort]
    constructor
    · rintro (⟨rfl, rfl⟩ | ⟨step, inner, member, own, rfl, method, rfl⟩)
      · exact ⟨owner, _, node, ⟨owner, owned, .inl ⟨rfl, rfl, rfl⟩⟩, rfl, rfl⟩
      · exact ⟨_, _, member, ⟨owner, owned, .inr ⟨step, inner, member, own, rfl, method, rfl, rfl⟩⟩,
          method.found, rfl⟩
    · rintro ⟨name, kind, declaring, ⟨other, owned', whole | inBody⟩, here, rfl⟩
      · obtain ⟨rfl, rfl, rfl⟩ := whole
        obtain rfl := Option.some.inj (owned.symm.trans owned')
        obtain rfl := Option.some.inj here
        exact .inl ⟨rfl, rfl⟩
      · obtain ⟨step, inner, member, own, rfl, method, rfl, rfl⟩ := inBody
        obtain rfl := Option.some.inj (owned.symm.trans owned')
        obtain rfl := Option.some.inj (here.symm.trans method.found)
        exact .inr ⟨step, inner, declaring, own, rfl, method, rfl⟩

theorem ofVariable_enumerates (text : Wording) (exported : Bool) (declarator : Node) :
    Enumerates (fun rest symbol => rest = [] ∧ ∃ name kind, variableName? text declarator = some name ∧
      IsKindOf declarator kind ∧ symbol = declared name kind exported declarator)
      (ofVariable text exported declarator).symbols := by
  have callable : (declarator.child? .value).any (isFunctionValue ·.kind) = true ↔
      HoldsFunction declarator := Option.any_eq_true _ _
  unfold ofVariable
  dsimp only
  split
  · next name named =>
    refine (Enumerates.single [] _).congr fun rest symbol => ?_
    by_cases holds : HoldsFunction declarator
    · simp [named, IsKindOf, holds, callable.mpr holds]
    · simp [named, IsKindOf, holds, Bool.eq_false_iff.mpr (mt callable.mp holds)]
  · next pattern => exact .nil fun _ _ ⟨_, _, _, named, _⟩ => nomatch pattern.symm.trans named

theorem ofVariables_enumerates (sort : sortOf node.kind = .variables) (text : Wording)
    (exported : Bool) :
    Enumerates (IsSymbolIn text node exported)
      (join ((node.children.filter (·.kind == .variableDeclarator)).map
        (ofVariable text exported))).symbols := by
  rw [join_symbols, List.flatMap_map]
  refine .congr (.flatMap_filter _ fun _ declarator _ => ofVariable_enumerates text exported declarator)
    fun rest symbol => ?_
  simp only [IsSymbolIn, declares_variables_iff sort]
  constructor
  · rintro ⟨step, declarator, _, rfl, listed, declares, rfl, name, kind, named, holds, rfl⟩
    exact ⟨name, kind, declarator, ⟨step, declarator, rfl, listed, beq_iff_eq.mp declares, named, holds⟩,
      (node.at?_singleton step).trans listed, rfl⟩
  · rintro ⟨name, kind, declaring, ⟨step, declarator, rfl, listed, declares, named, holds⟩, here, rfl⟩
    obtain rfl := Option.some.inj (here.symm.trans ((node.at?_singleton step).trans listed))
    exact ⟨step, declaring, [], rfl, listed, beq_iff_eq.mpr declares, rfl, name, kind, named, holds, rfl⟩

theorem ofDeclaration_enumerates (text : Wording) (exported : Bool) (node : Node) :
    Enumerates (IsSymbolIn text node exported) (ofDeclaration text exported node).symbols := by
  refine ofDeclaration_cases (motive := fun outline =>
    Enumerates (IsSymbolIn text node exported) outline.symbols) ?_ ?_ ?_ ?_ ?_
  · intro sort
    have whole := whole_enumerates text exported node (by simp [sort]) (by simp [sort])
    rw [namedKind?_function sort] at whole
    cases named : name? text node <;> rwa [named] at whole
  · exact fun sort => ofClass_enumerates sort text exported
  · exact fun sort => ofVariables_enumerates sort text exported
  · intro sort kind own
    have whole := whole_enumerates text exported node (by simp [sort]) (by simp [sort])
    rwa [own] at whole
  · intro sort
    have whole := whole_enumerates text exported node (by simp [sort]) (by simp [sort])
    rwa [namedKind?_eq_none (.inr sort)] at whole

section Tree

variable {start place : Address} {step : Nat} {symbol : Declared}

/-- The symbols in a part of the tree are those of the top-level statement there. -/
theorem IsTopLevel.isSymbol_iff (top : IsTopLevel tree start node)
    (decided : exported = true ↔ IsExportedDeclaration tree start)
    (first : place.head? = start.head?) :
    IsSymbol text tree place symbol ↔
      ∃ rest, place = start ++ rest ∧ IsSymbolIn text node exported rest symbol := by
  constructor
  · rintro ⟨start', node', rest, top', rfl, decided', holds⟩
    have same := (top'.head?_eq (List.prefix_append start' rest)).symm.trans first
    obtain ⟨rfl, rfl⟩ := top'.unique_of_head top same
    rw [show symbol.exported = exported from Bool.eq_iff_iff.mpr (decided'.trans decided.symm)] at holds
    exact ⟨rest, rfl, holds⟩
  · rintro ⟨rest, rfl, name, kind, declaring, declares, here, rfl⟩
    exact ⟨start, node, rest, top, rfl, decided, name, kind, declaring, declares, here, rfl⟩

/-- Every symbol is in a statement. -/
theorem IsSymbol.exists_statement (holds : IsSymbol text tree place symbol) :
    ∃ step rest statement, place = step :: rest ∧ tree.children[step]? = some statement := by
  obtain ⟨start, node, rest, top, rfl, _⟩ := holds
  cases top with
  | statement listed => exact ⟨_, _, _, rfl, listed⟩
  | exported listed => exact ⟨_, _, _, rfl, listed⟩

theorem not_isExportedDeclaration : ¬IsExportedDeclaration tree [step] := by
  rintro ⟨step, inner, statement, same, _⟩
  cases same

theorem ofStatement_enumerates {statement : Node} (text : Wording)
    (listed : tree.children[step]? = some statement) :
    Enumerates (fun rest symbol => IsSymbol text tree (step :: rest) symbol)
      (ofStatement text statement).symbols := by
  have plain (kind : statement.kind ≠ .importStatement)
      (bare : statement.kind = .exportStatement → statement.child? .declaration = none) :
      ∀ rest symbol, IsSymbolIn text statement false rest symbol ↔
        IsSymbol text tree (step :: rest) symbol := by
    intro rest symbol
    have top : IsTopLevel tree [step] statement := .statement listed kind bare
    have decided : false = true ↔ IsExportedDeclaration tree [step] :=
      iff_of_false Bool.false_ne_true not_isExportedDeclaration
    have below : IsSymbol text tree (step :: rest) symbol ↔ _ := top.isSymbol_iff decided rfl
    simpa using below.symm
  unfold ofStatement
  split
  · next kind =>
    have nothing : (ofImport text statement).symbols = [] := by
      unfold ofImport
      split <;> rfl
    rw [nothing]
    refine .nil fun rest symbol ⟨start, node, below, top, same, _⟩ => ?_
    have first : start.head? = some step := by
      rw [← top.head?_eq (List.prefix_append start below), ← same]
      rfl
    cases top with
    | statement listed' other =>
      obtain rfl := Option.some.inj first
      exact other (Option.some.inj (listed.symm.trans listed') ▸ kind)
    | exported listed' exports =>
      obtain rfl := Option.some.inj first
      obtain rfl := Option.some.inj (listed.symm.trans listed')
      cases kind.symm.trans exports
  · next kind =>
    split
    · next declaration declared =>
      obtain ⟨inner, placed, listed'⟩ := Node.child?_eq_some_iff.mp declared
      have top : IsTopLevel tree [step, inner] declaration := .exported listed kind placed listed'
      have decided : true = true ↔ IsExportedDeclaration tree [step, inner] :=
        iff_of_true rfl ⟨step, inner, statement, rfl, listed, kind, placed⟩
      refine ((ofDeclaration_enumerates text true declaration).under inner).congr fun rest symbol => ?_
      have below : IsSymbol text tree (step :: rest) symbol ↔ _ := top.isSymbol_iff decided rfl
      simpa using below.symm
    · next bare =>
      have sort : sortOf statement.kind = .other := by rw [kind]; rfl
      have whole := whole_enumerates text false statement (by simp [sort]) (by simp [sort])
      rw [namedKind?_eq_none (.inr sort)] at whole
      exact whole.congr (plain (by simp [kind]) fun _ => bare)
  · next other bare =>
    exact (ofDeclaration_enumerates text false statement).congr
      (plain other fun exports => absurd exports bare)

/-- The symbols of a file are what its top-level statements declare, each once and in the order of the
source. -/
theorem ofTree_enumerates (text : Wording) (tree : Node) :
    Enumerates (IsSymbol text tree) (ofTree text tree).symbols := by
  unfold ofTree
  rw [join_symbols, List.flatMap_map]
  refine (Enumerates.flatMap fun step statement listed =>
    ofStatement_enumerates text listed).congr fun place symbol => ⟨?_, fun holds => ?_⟩
  · rintro ⟨step, statement, rest, rfl, _, holds⟩
    exact holds
  · obtain ⟨step, rest, statement, rfl, listed⟩ := holds.exists_statement
    exact ⟨step, statement, rest, rfl, listed, holds⟩

end Tree

/-- No declaration ends before it begins. -/
def IsOrdered (outline : Outline) : Prop :=
  ∀ symbol ∈ outline.symbols, symbol.firstLine ≤ symbol.lastLine

theorem ofTree_isOrdered (text : Wording) (tree : Node) : (ofTree text tree).IsOrdered := by
  intro symbol listed
  obtain ⟨_, _, _, _, _, _, _, _, _, declaring, _, _, same⟩ :=
    (ofTree_enumerates text tree).mem_iff.mp listed
  rw [same]
  exact Nat.succ_le_succ declaring.span.ordered

/-- Whatever a file says, none of its declarations ends before it begins. -/
theorem ofSource_isOrdered {outline : Outline} {path source : String}
    (outlined : ofSource path source = .ok outline) :
    outline.IsOrdered := by
  unfold ofSource at outlined
  split at outlined
  · cases outlined
  · split at outlined
    · cases outlined
    · obtain rfl := Except.ok.inj outlined
      exact ofTree_isOrdered _ _

end CodeAtlas.Outline
