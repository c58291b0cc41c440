import CodeAtlas.Script.Parse
import CodeAtlas.Proofs.Outline.Regions
import CodeAtlas.Proofs.Script.Imports

namespace CodeAtlas.Outline

open Script Script.Reader

/-- The parts of a class: its body is the last of them. -/
def EndsWithBody (parts : List Node) : Prop :=
  ∃ front body, parts = front ++ [body] ∧ (∀ part ∈ front, part.role ≠ some .body) ∧
    body.kind = .classBody

/-- What a declaration is to be: no export, a class only with a body of its own, and an import only of
names. -/
def IsDeclaration (node : Node) : Prop :=
  node.kind ≠ .exportStatement ∧ (sortOf node.kind = .classDecl → IsClass node) ∧
    (node.kind = .importStatement → AreImportParts node.children)

/-- What a statement is to be: a declaration, or an export of none but those. -/
def IsStatement (node : Node) : Prop :=
  (sortOf node.kind = .classDecl → IsClass node) ∧
    (node.kind = .importStatement → AreImportParts node.children) ∧
    (node.kind = .exportStatement →
      ∀ child ∈ node.children, child.role = some .declaration → IsDeclaration child)

variable {node : Node}

/-- A part that none of the first children plays can only be played by the last. -/
theorem eq_length_of_place? {front : List Node} {last : Node} {role : Role} {step : Nat}
    (parts : node.children = front ++ [last]) (plain : ∀ part ∈ front, part.role ≠ some role)
    (placed : node.place? role = some step) : step = front.length := by
  rw [Node.place?, parts] at placed
  obtain ⟨bound, plays, _⟩ := List.findIdx?_eq_some_iff_getElem.mp placed
  rw [List.length_append, List.length_singleton] at bound
  by_contra other
  have early : step < front.length := by omega
  rw [List.getElem_append_left early] at plays
  exact plain _ (List.getElem_mem early) (beq_iff_eq.mp plays)

theorem isClass_of_endsWithBody (ends : EndsWithBody node.children) : IsClass node := by
  obtain ⟨front, body, parts, plain, kind⟩ := ends
  intro step found placed listed
  obtain rfl := eq_length_of_place? parts plain placed
  have last : node.children[front.length]? = some body := by rw [parts, List.getElem?_concat_length]
  obtain rfl := Option.some.inj (listed.symm.trans last)
  refine ⟨kind, fun before heritage => ?_⟩
  rw [heritagePlace?, parts] at heritage
  obtain ⟨bound, kind', _⟩ := List.findIdx?_eq_some_iff_getElem.mp heritage
  rw [List.length_append, List.length_singleton] at bound
  by_contra late
  obtain rfl : before = front.length := by omega
  rw [List.getElem_concat_length rfl, kind] at kind'
  cases kind'

theorem IsDeclaration.isStatement (declares : IsDeclaration node) : IsStatement node :=
  ⟨declares.2.1, declares.2.2, fun exports => absurd exports declares.1⟩

theorem IsDeclaration.withRole (declares : IsDeclaration node) (role : Role) :
    IsDeclaration (node.withRole role) := declares

/-- The node plays no part. -/
def HasNoRole (node : Node) : Prop := node.role = none

section Class

variable (g : Grammar)

theorem decorators_yields : Yields g.decorators fun found => ∀ part ∈ found, HasNoRole part := by
  refine .repeated ?_ g.bound
  refine .after fun _ => .ite (fun _ => ?_) fun _ => .pure fun _ none => nomatch none
  refine .bind (P := HasNoRole) (.nodeOf fun _ _ => rfl) fun part free => .pure ?_
  rintro _ ⟨⟩
  exact free

theorem typeParameters?_yields :
    Yields g.typeParameters? fun found => ∀ part ∈ found, HasNoRole part := by
  have nothing : Yields (pure []) fun found => ∀ part ∈ found, HasNoRole part :=
    .pure fun _ member => nomatch member
  unfold Grammar.typeParameters?
  refine .ite (fun _ => nothing) fun _ => .after fun _ => .ite (fun _ => nothing) fun _ => ?_
  refine .after fun _ => .bind (P := fun found => ∀ part ∈ found, HasNoRole part)
    (.items g _ _ (.nodeOf fun _ _ => rfl)) fun found free => ?_
  exact .checked fun _ => .pure free

theorem classHeritage?_yields :
    Yields g.classHeritage? fun found => ∀ part ∈ found, HasNoRole part := by
  refine .after fun _ => .ite (fun _ => ?_) fun _ => .pure fun _ member => nomatch member
  refine .bind (P := HasNoRole) (.nodeOf fun _ _ => rfl) fun part free => .pure ?_
  exact List.forall_mem_singleton.mpr free

theorem HasNoRole.ne_body {part : Node} (free : HasNoRole part) : part.role ≠ some .body := by
  rw [free]
  nofun

theorem classRest_yields (named : Bool) : Yields (g.classRest named) EndsWithBody := by
  refine .after fun _ => ?_
  extract_lets anonymous rest
  have ends (name : List Node) (plain : ∀ part ∈ name, part.role ≠ some .body) :
      Yields (rest name) EndsWithBody := by
    refine .bind (typeParameters?_yields g) fun types plain' => ?_
    refine .bind (classHeritage?_yields g) fun heritage plain'' => ?_
    refine .bind (P := fun body => body.kind = .classBody) (.nodeOf fun _ _ => rfl)
      fun body kind => .pure ?_
    refine ⟨name ++ types ++ heritage, body.withRole .body, rfl, ?_, kind⟩
    simp only [List.forall_mem_append]
    exact ⟨⟨plain, fun part member => (plain' part member).ne_body⟩,
      fun part member => (plain'' part member).ne_body⟩
  refine .ite (fun _ => .bind (.pure rfl) ?_) fun _ => .after fun _ => .bind (.pure rfl) ?_
  · rintro _ rfl
    exact ends [] fun _ member => nomatch member
  · rintro _ rfl
    exact ends _ (List.forall_mem_singleton.mpr nofun)

theorem classDeclaration_yields (start : Position) {decorators : List Node}
    (free : ∀ part ∈ decorators, HasNoRole part) :
    Yields (g.classDeclaration start decorators) IsDeclaration := by
  unfold Grammar.classDeclaration
  extract_lets rest
  have declares (abstract : Bool) : Yields (rest abstract) IsDeclaration := by
    refine .after fun _ => .bind (classRest_yields g true) fun parts ends => .nodeFrom fun span => ?_
    obtain ⟨front, body, rfl, plain, kind⟩ := ends
    refine ⟨by cases abstract <;> nofun, fun _ => isClass_of_endsWithBody ?_, by cases abstract <;> nofun⟩
    refine ⟨decorators ++ front, body, (List.append_assoc _ _ _).symm, ?_, kind⟩
    exact List.forall_mem_append.mpr ⟨fun part member => (free part member).ne_body, plain⟩
  exact .ite (fun _ => .after declares) fun _ => .after declares

end Class

section Declaration

variable (g : Grammar)

/-- The kind is neither that of a class nor that of an import or an export. -/
def IsPlain (kind : Kind) : Prop :=
  kind ≠ .exportStatement ∧ sortOf kind ≠ .classDecl ∧ kind ≠ .importStatement

instance (kind : Kind) : Decidable (IsPlain kind) := inferInstanceAs (Decidable (_ ∧ _))

theorem isDeclaration_of_isPlain (plain : IsPlain node.kind) : IsDeclaration node :=
  ⟨plain.1, fun sort => absurd sort plain.2.1, fun imports => absurd imports plain.2.2⟩

theorem node_yields {kind : Kind} (plain : IsPlain kind) (content : Reader (List Node)) :
    Yields (Reader.node kind content) IsDeclaration :=
  .nodeOf fun _ _ => isDeclaration_of_isPlain plain

theorem nodeFrom_yields {kind : Kind} (plain : IsPlain kind) (start : Position) (parts : List Node) :
    Yields (Reader.nodeFrom kind start parts) IsDeclaration :=
  .nodeFrom fun _ => isDeclaration_of_isPlain plain

theorem functionDeclaration_yields : Yields g.functionDeclaration IsDeclaration := by
  refine .after fun _ => .after fun start => .after fun _ => ?_
  extract_lets rest
  have declares (checked : Unit) : Yields (rest checked) IsDeclaration := by
    refine .after fun _ => .after fun generator => .after fun _ => .after fun _ => .after fun _ => ?_
    refine .ite (fun _ => .after fun _ => ?_) fun _ => .ite (fun _ => .after fun _ => ?_) fun _ => .fail
    · exact nodeFrom_yields (by cases generator <;> decide) start _
    · exact nodeFrom_yields (by decide) start _
  exact .ite (fun _ => .after fun _ => .checked declares) fun _ => declares ()

theorem importRule_yields : Yields g.importRule IsDeclaration := by
  refine (importRule_isImport g).mono fun node ⟨kind, parts⟩ => ⟨?_, fun sort => ?_, fun _ => parts⟩
  · rcases kind with kind | kind <;> rw [kind] <;> decide
  · rcases kind with kind | kind <;> rw [kind] at sort <;> cases sort

theorem plainDeclaration_yields : Yields g.plainDeclaration IsDeclaration := by
  refine .after fun _ => .after fun start => .after fun _ => .ite (fun _ => ?_) fun _ => ?_
  · exact .bind (decorators_yields g) fun _ free => classDeclaration_yields g start free
  refine .after fun word => ?_
  dsimp only
  split
  · exact node_yields (by decide) _
  · exact node_yields (by decide) _
  · refine .after fun _ => .ite (fun _ => ?_) fun _ => ?_
    · exact node_yields (by decide) _
    · exact node_yields (by decide) _
  · exact functionDeclaration_yields g
  · exact functionDeclaration_yields g
  · exact classDeclaration_yields g start fun _ member => nomatch member
  refine .checked fun _ => ?_
  split
  · exact classDeclaration_yields g start fun _ member => nomatch member
  · exact node_yields (by decide) _
  · exact node_yields (by decide) _
  · exact node_yields (by decide) _
  · exact node_yields (by decide) _
  · exact node_yields (by decide) _
  · exact importRule_yields g
  · exact .fail

theorem declaration_yields : Yields g.declaration IsDeclaration := by
  refine .after fun _ => .ite (fun _ => ?_) fun _ => plainDeclaration_yields g
  exact node_yields (by decide) _

end Declaration

section Export

variable (g : Grammar)

/-- What is exported under the word is a declaration, if it is one at all. -/
def IsExported (part : Node) : Prop := part.role = some .declaration → IsDeclaration part

theorem HasNoRole.isExported (free : HasNoRole node) : IsExported node := by
  intro role
  cases free.symm.trans role

theorem isExported_withRole {role : Role} (other : role ≠ .declaration) :
    IsExported (node.withRole role) := by
  intro declares
  exact absurd (Option.some.inj declares) other

theorem fromClause_yields : Yields Grammar.fromClause IsExported :=
  .after fun _ => .after fun _ => .pure (isExported_withRole (by decide))

theorem exportClause_yields : Yields g.exportClause fun found => ∀ part ∈ found, IsExported part := by
  refine .after fun _ => .after fun _ => .after fun _ => ?_
  extract_lets rest
  have exported {reader : Reader (Option Node)}
      (source : Yields reader fun found => ∀ part ∈ found, IsExported part) :
      Yields (reader >>= rest) fun found => ∀ part ∈ found, IsExported part := by
    refine .bind source fun found exported => .after fun _ => .pure ?_
    simpa using exported
  have nothing : Yields (pure none) fun found : Option Node => ∀ part ∈ found, IsExported part :=
    .pure fun _ none => nomatch none
  refine .ite (fun _ => .after fun _ => ?_) fun _ => exported nothing
  exact exported (.ite (fun _ => nothing) fun _ => .attempt fromClause_yields)

theorem exportAll_yields : Yields g.exportAll fun found => ∀ part ∈ found, IsExported part := by
  refine .after fun _ => .after fun _ => ?_
  extract_lets rest
  have exported (checked : Unit) : Yields (rest checked) fun found => ∀ part ∈ found, IsExported part :=
    .bind fromClause_yields fun source exported => .after fun _ =>
      .pure (List.forall_mem_singleton.mpr exported)
  exact .ite (fun _ => .after fun _ => exported ()) fun _ => exported ()

theorem exportRest_yields {declaration : Reader Node} (declares : Yields declaration IsDeclaration) :
    Yields (g.exportRest declaration) fun found => ∀ part ∈ found, IsExported part := by
  have declared : Yields (Grammar.exportRest.declared declaration)
      fun found => ∀ part ∈ found, IsExported part :=
    .bind declares fun part declares =>
      .pure (List.forall_mem_singleton.mpr fun _ => declares.withRole .declaration)
  have valued : Yields (Grammar.exportRest.valued g) fun found => ∀ part ∈ found, IsExported part :=
    .after fun _ => .after fun _ =>
      .pure (List.forall_mem_singleton.mpr (isExported_withRole (by decide)))
  refine .after fun _ => .after fun _ => .checked fun _ => .after fun next => ?_
  dsimp only
  split
  · exact exportAll_yields g
  · exact exportClause_yields g
  · exact .checked fun _ => .after fun _ => valued
  refine .after fun _ => .ite (fun _ => .orElse declared valued) fun _ => .ite (fun _ => ?_)
    fun _ => declared
  refine .after fun _ => .ite (fun _ => .after fun _ => exportClause_yields g) fun _ => ?_
  refine .after fun _ => .ite (fun _ => ?_) fun _ => declared
  exact .after fun _ => .after fun _ => .after fun _ => .after fun _ =>
    .pure fun _ member => nomatch member

theorem exportRule_yields : Yields g.exportRule IsStatement := by
  refine .node (R := fun found => ∀ part ∈ found, IsExported part) ?_ fun span parts exported => ?_
  · refine .bind (decorators_yields g) fun decorators free => ?_
    refine .bind (exportRest_yields g (declaration_yields g)) fun found exported => .pure ?_
    exact List.forall_mem_append.mpr ⟨fun part member => (free part member).isExported, exported⟩
  · exact ⟨nofun, nofun, fun _ => exported⟩

end Export

section Statement

variable (g : Grammar)

theorem statement_yields {reader : Reader Node} (declares : Yields reader IsDeclaration) :
    Yields reader IsStatement :=
  declares.mono fun _ declares => declares.isStatement

theorem expressionStatement_yields : Yields g.expressionStatement IsStatement :=
  statement_yields (node_yields (by decide) _)

theorem simple_yields (word : String) (rest : Reader (List Node)) :
    Yields (Grammar.simple word rest) IsStatement :=
  statement_yields (node_yields (by decide) _)

theorem otherStatement_yields : Yields g.otherStatement IsStatement :=
  .after fun _ => .ite (fun _ => statement_yields (node_yields (by decide) _)) fun _ =>
    expressionStatement_yields g

theorem wordStatement_yields (word : String) : Yields (g.wordStatement word) IsStatement := by
  have declared : Yields g.declaration IsStatement := statement_yields (declaration_yields g)
  have other := otherStatement_yields g
  have expressed := expressionStatement_yields g
  unfold Grammar.wordStatement
  split
  case h_1 => exact declared
  case h_2 => exact declared
  case h_3 => exact .orElse declared other
  case h_4 => exact .orElse declared expressed
  case h_5 => exact .orElse declared expressed
  case h_6 => exact .orElse declared other
  case h_7 =>
    exact .after fun _ => .ite (fun _ => expressed) fun _ => statement_yields (importRule_yields g)
  case h_8 => exact .orElse (exportRule_yields g) other
  case h_21 =>
    refine .ite (fun _ => .ite (fun _ => declared) fun _ => ?_) fun _ => other
    exact .ite (fun _ => .orElse declared other) fun _ => other
  all_goals exact simple_yields _ _

theorem statementRule_yields
    (block : Yields (g.parse .block) fun node => node.kind = .statementBlock) :
    Yields g.statementRule IsStatement := by
  have expressed := expressionStatement_yields g
  refine .after fun _ => .blame (.after fun next => ?_)
  split
  · exact .fail
  refine .ite (fun _ => .orElse ?_ expressed) fun _ => ?_
  · refine statement_yields (block.mono fun node kind => isDeclaration_of_isPlain ?_)
    rw [kind]
    decide
  refine .ite (fun _ => statement_yields (node_yields (by decide) _)) fun _ => ?_
  refine .ite (fun _ => ?_) fun _ => ?_
  · exact .orElse (exportRule_yields g) (.orElse (statement_yields (declaration_yields g)) expressed)
  · exact .after fun word => .ite (fun _ => expressed) fun _ => wordStatement_yields g word

theorem statements_yields (stops : List String) (statement : Yields (g.parse .statement) IsStatement) :
    Yields (g.statements stops) fun found => ∀ node ∈ found, IsStatement node := by
  refine .repeated ?_ g.bound
  have nothing : Yields (pure none) fun found : Option Node => ∀ node ∈ found, IsStatement node :=
    .pure fun _ none => nomatch none
  have one : Yields (do return some (← g.statement)) fun found => ∀ node ∈ found, IsStatement node := by
    refine .bind statement fun node holds => .pure ?_
    rintro _ ⟨⟩
    exact holds
  refine .after fun next => ?_
  split
  · exact nothing
  · exact nothing
  · exact .ite (fun _ => .after fun _ => .ite (fun _ => nothing) fun _ => one) fun _ => one

end Statement

/-- At every depth, blocks are blocks and statements are statements. -/
theorem rules_yield (dialect : Dialect) (bound depth : Nat) :
    (Yields (Rule.parse dialect bound depth .block) fun node => node.kind = .statementBlock) ∧
      Yields (Rule.parse dialect bound depth .statement) IsStatement := by
  induction depth with
  | zero => exact ⟨.fail, .fail⟩
  | succ depth ih =>
    exact ⟨.nodeOf fun _ _ => rfl, statementRule_yields ⟨dialect, bound, _⟩ ih.1⟩

theorem IsClass.of_isStatement {tree : Node} {start : Address}
    (statements : ∀ statement ∈ tree.children, IsStatement statement)
    (top : IsTopLevel tree start node) (sort : sortOf node.kind = .classDecl) : IsClass node := by
  cases top with
  | statement listed => exact (statements node (List.mem_of_getElem? listed)).1 sort
  | exported listed exports declares declared =>
    refine ((statements _ (List.mem_of_getElem? listed)).2.2 exports node
      (List.mem_of_getElem? declared) ?_).2.1 sort
    obtain ⟨bound, role, _⟩ := List.findIdx?_eq_some_iff_getElem.mp declares
    obtain ⟨_, same⟩ := List.getElem?_eq_some_iff.mp declared
    rw [same] at role
    exact beq_iff_eq.mp role

theorem statements_of_parse {dialect : Dialect} {source : String} {tree : Node}
    (read : Script.parse dialect source = .ok tree) :
    tree.kind = .program ∧ ∀ statement ∈ tree.children, IsStatement statement := by
  unfold Script.parse at read
  extract_lets characters bound g at read
  have yields : Yields g.programRule fun tree =>
      tree.kind = .program ∧ ∀ statement ∈ tree.children, IsStatement statement := by
    refine .node (R := fun found => ∀ statement ∈ found, IsStatement statement) ?_
      fun _ _ statements => ⟨rfl, statements⟩
    refine .bind (statements_yields g [] (rules_yield dialect bound _).2) fun found statements => ?_
    exact .after fun _ => .after fun _ => .ite (fun _ => .pure statements) fun _ => .blame .fail
  split at read
  · next tree' rest yielded =>
    cases read
    exact yields _ _ _ yielded
  · cases read

/-- Whatever source the grammar accepts, its tree is that of a program. -/
theorem isProgram_of_parse {dialect : Dialect} {source : String} {tree : Node}
    (read : Script.parse dialect source = .ok tree) : IsProgram tree := by
  obtain ⟨kind, statements⟩ := statements_of_parse read
  exact ⟨kind, fun top sort => .of_isStatement statements top sort⟩

/-- What is computed from the tree of a source is computed from that of a program. -/
theorem exists_isProgram {α : Type} {dialect : Dialect} {source : String} {f : Node → α} {value : α}
    (found : (Script.parse dialect source).toOption.map f = some value) :
    ∃ tree, Script.parse dialect source = .ok tree ∧ IsProgram tree ∧ f tree = value := by
  cases read : Script.parse dialect source with
  | error line =>
    rw [read] at found
    cases found
  | ok tree =>
    rw [read] at found
    exact ⟨tree, rfl, isProgram_of_parse read, Option.some.inj found⟩

end CodeAtlas.Outline
